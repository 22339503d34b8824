import Mathlib
import PromptScript.Proofs.Dictionary
import PromptScript.Proofs.Rpc.Framing

/-!
# What a response says

A response is an object with a result or an error, and never both. It repeats the identifier of an
object that is a request, or that stands for a value although it is no request. An object that is
neither loses its identifier: one with a number out of range, with a lone half of a surrogate pair
or nested too deeply is still JSON, but the identifier is only looked for in values.
-/

namespace PromptScript.Rpc

open Json Text

/-- A response is read as an object with its identifier, if it has one, and one outcome. -/
theorem exists_tree_render (r : Response) : ∃ found, Tree.ofText? r.render = some (.object found) ∧
    List.Forall₂ Writes r.id.toList (membersNamed unescape? "id".toList found) ∧
    (membersNamed unescape? "result".toList found).length +
      (membersNamed unescape? "error".toList found).length = 1 := by
  obtain ⟨outcome, houtcome, hrender⟩ : ∃ outcome : Text × Json,
      (outcome.1 = "result".toList ∨ outcome.1 = "error".toList) ∧
        r.render = compact (.object (memberIf "id" r.id ++ [outcome])) := by
    rw [Response.render]
    cases r.outcome with
    | result value => exact ⟨_, .inl rfl, rfl⟩
    | error message => exact ⟨_, .inr rfl, rfl⟩
  obtain ⟨tree, htree, hwrites⟩ := exists_tree_compact (.object (memberIf "id" r.id ++ [outcome]))
  rw [← hrender] at htree
  cases hwrites with
  | object hmembers =>
    rename_i found
    have hnamed := forall₂_membersNamed hmembers
    refine ⟨found, htree, ?_, ?_⟩
    · have hid : ((memberIf "id" r.id ++ [outcome]).filter
          fun m => m.1 = "id".toList).map (·.2) = r.id.toList := by
        obtain ⟨name, value⟩ := outcome
        rcases houtcome with rfl | rfl <;> cases r.id <;> rfl
      exact hid ▸ hnamed "id".toList
    · rw [← (hnamed "result".toList).length_eq, ← (hnamed "error".toList).length_eq]
      obtain ⟨name, value⟩ := outcome
      rcases houtcome with rfl | rfl <;> cases r.id <;> rfl

/-- Leaving out other names makes no difference to a name that is kept. -/
theorem lookup_filter_contains {entries : List (Text × Tree)} {fields : List Text} {name : Text}
    (h : name ∈ fields) :
    (entries.filter fun m => fields.contains m.1).lookup name = entries.lookup name := by
  rw [Dictionary.lookup_eq_head?_filter, Dictionary.lookup_eq_head?_filter, List.filter_filter]
  congr 3
  funext m
  by_cases hm : m.1 = name
  · simp [hm, h]
  · simp [hm]

/-- A field of an object is the first member that its name has. -/
theorem lookup_record? {members known : List (Text × Tree)} {fields : List Text} {name : Text}
    (h : (Tree.object members).record? unescape? fields = some known) (hname : name ∈ fields) :
    known.lookup name = (membersNamed unescape? name members).head? := by
  simp only [Tree.record?, Option.bind_eq_bind, Option.bind_eq_some_iff] at h
  obtain ⟨found, hfound, h⟩ := h
  split at h
  · cases h
    rw [lookup_filter_contains hname, Dictionary.lookup_eq_head?_filter,
      membersNamed_eq_of_names? unescape? hfound]
  · cases h

/-- A field that is given and not null is decoded. -/
theorem optional_of_ne_null {α : Type} {fields : List (Text × Tree)} {name : Text} {tree : Tree}
    (h : fields.lookup name = some tree) (hne : tree ≠ .null) (decode : Tree → Option α) :
    Tree.optional fields name decode = (decode tree).map some := by
  unfold Tree.optional
  rw [h]
  cases tree <;> first | exact absurd rfl hne | rfl

section

variable {members : List (Text × Tree)} {id : Tree}
  (hid : membersNamed unescape? "id".toList members = [id]) (hne : id ≠ .null)

include hid

include hne in
/-- A request keeps the identifier of its object. -/
theorem id_of_request {r : Request} (h : Request.ofTree? (.object members) = some r) :
    ∃ v, id.value? unescape? (maxDepth - 1) = some v ∧ r.id = some v := by
  simp only [Request.ofTree?, Option.bind_eq_bind, Option.bind_eq_some_iff, Option.some.injEq] at h
  obtain ⟨fields, hfields, given, hgiven, _, -, params, -, rfl⟩ := h
  have hlookup : fields.lookup "id".toList = some id := by
    rw [lookup_record? hfields (by simp), hid]
    rfl
  rw [optional_of_ne_null hlookup hne, Option.map_eq_some_iff] at hgiven
  obtain ⟨v, hv, rfl⟩ := hgiven
  exact ⟨v, hv, rfl⟩

/-- An object that stands for a value has the identifier of the value. -/
theorem id_of_value {text : Text} (htext : Tree.ofText? text = some (.object members))
    (hreadable : (Tree.object members).IsReadable unescape?)
    (hdepth : (Tree.object members).depth ≤ maxDepth) :
    ∃ v, id.value? unescape? (maxDepth - 1) = some v ∧ givenId? text = some v := by
  obtain ⟨value, hvalue⟩ := Option.isSome_iff_exists.mp
    ((value?_isSome_iff unescape? maxDepth (.object members)).mpr ⟨hreadable, hdepth⟩)
  have hof : Json.ofText? text = some value := by
    rw [Json.ofText?, htext]
    exact hvalue
  rw [Tree.value?, if_neg (by decide), Option.map_eq_some_iff] at hvalue
  obtain ⟨found, hfound, rfl⟩ := hvalue
  have hvalues := itemValues?_membersNamed unescape? "id".toList hfound
  rw [hid] at hvalues
  simp only [itemValues?, Option.bind_eq_bind, Option.bind_eq_some_iff, Option.map_some,
    Option.some.injEq] at hvalues
  obtain ⟨v, hv, hvalues⟩ := hvalues
  refine ⟨v, hv, ?_⟩
  rw [givenId?, hof]
  show (Dictionary.ofList found).get? "id".toList = some v
  rw [Dictionary.get?_ofList_eq_getLast?, ← hvalues]
  rfl

end

/-- Whether an object keeps its identifier: it is a request, or it stands for a value. -/
def KeepsId (object : Tree) : Prop :=
  (Request.ofTree? object).isSome ∨ object.IsReadable unescape? ∧ object.depth ≤ maxDepth

section

variable {text : Text} {members : List (Text × Tree)} {id : Tree}
  (htext : Tree.ofText? text = some (.object members))

include htext

/-- The response to an object that keeps its identifier has it. -/
theorem respond_id_of_keepsId (hid : membersNamed unescape? "id".toList members = [id])
    (hne : id ≠ .null) (e : Engine) (h : KeepsId (.object members)) :
    ∃ v, id.value? unescape? (maxDepth - 1) = some v ∧ (respond e text).1.id = some v := by
  rw [respond, htext, Option.bind_some]
  cases hrequest : Request.ofTree? (.object members) with
  | some request => exact id_of_request hid hne hrequest
  | none =>
    rcases h with h | ⟨hreadable, hdepth⟩
    · rw [hrequest] at h
      cases h
    · exact id_of_value hid htext hreadable hdepth

/-- The response to an object that does not keep its identifier has none. -/
theorem respond_id_of_not_keepsId (e : Engine) (h : ¬ KeepsId (.object members)) :
    (respond e text).1.id = none := by
  rw [KeepsId, not_or, Option.not_isSome_iff_eq_none, ← value?_isSome_iff,
    Option.not_isSome_iff_eq_none] at h
  rw [respond, htext, Option.bind_some, h.1]
  show givenId? text = none
  rw [givenId?, Json.ofText?, htext, Option.bind_eq_bind, Option.bind_some, h.2]

end

/-- A line has a response unless it is blank. The response is an object with either a result or an
error. If the line is an object with one identifier that is not null, the response has the same
identifier if the object is a request, or if it stands for a value; else it has none. -/
theorem responses_correlated (e : Engine) (line : Text) :
    ((handleLine e line).1 = none ↔ trim line = []) ∧
    ∀ response, (handleLine e line).1 = some response →
      ∃ found, Tree.ofText? response = some (.object found) ∧
        (membersNamed unescape? "result".toList found).length +
          (membersNamed unescape? "error".toList found).length = 1 ∧
        ∀ members id, Tree.ofText? (trim line) = some (.object members) →
          membersNamed unescape? "id".toList members = [id] → id ≠ .null →
          (KeepsId (.object members) → ∃ v tree, id.value? unescape? (maxDepth - 1) = some v ∧
            membersNamed unescape? "id".toList found = [tree] ∧ Writes v tree) ∧
          (¬ KeepsId (.object members) → membersNamed unescape? "id".toList found = []) := by
  refine ⟨handleLine_eq_none_iff, fun response hresponse => ?_⟩
  have hrender : response = (respond e (trim line)).1.render := by
    simp only [handleLine] at hresponse
    split at hresponse
    · cases hresponse
    · exact (Option.some.inj hresponse).symm
  obtain ⟨found, hfound, hid, houtcome⟩ := exists_tree_render (respond e (trim line)).1
  refine ⟨found, hrender ▸ hfound, houtcome, fun members id htext hsingle hne => ⟨?_, ?_⟩⟩
  · intro h
    obtain ⟨v, hv, hkept⟩ := respond_id_of_keepsId htext hsingle hne e h
    rw [hkept] at hid
    obtain ⟨tree, rest, hwrites, hrest, hlist⟩ := List.forall₂_cons_left_iff.mp hid
    exact ⟨v, tree, hv, hlist.trans (congrArg _ (List.forall₂_nil_left_iff.mp hrest)), hwrites⟩
  · intro h
    rw [respond_id_of_not_keepsId htext e h] at hid
    exact List.forall₂_nil_left_iff.mp hid

/-- The identifier is lost where the method of a call is given as a number out of range. -/
theorem responses_correlated_fails :
    ¬ ∀ (e : Engine) (line response : Text) (members : List (Text × Tree)) (id : Tree) (v : Json),
      (handleLine e line).1 = some response →
      Tree.ofText? (trim line) = some (.object members) →
      membersNamed unescape? "id".toList members = [id] →
      id.value? unescape? (maxDepth - 1) = some v → v ≠ .null →
      ∃ found tree, Tree.ofText? response = some (.object found) ∧
        membersNamed unescape? "id".toList found = [tree] ∧ Writes v tree := by
  intro h
  have hresponse : (handleLine (.ofRegistry .empty) "\x7b\"id\":7,\"method\":1e999\x7d".toList).1 =
      some "\x7b\"error\":\x7b\"message\":\"Invalid request\"\x7d\x7d".toList := by decide +kernel
  have hmembers : Tree.ofText? (trim "\x7b\"id\":7,\"method\":1e999\x7d".toList) =
      some (.object [("id".toList, .number ⟨false, ['7'], none, none⟩),
        ("method".toList, .number ⟨false, ['1'], none, some (false, "999".toList)⟩)]) := by cbv
  have hread : Tree.ofText? "\x7b\"error\":\x7b\"message\":\"Invalid request\"\x7d\x7d".toList =
      some (.object [("error".toList,
        .object [("message".toList, .string "Invalid request".toList)])]) := by cbv
  have hid : membersNamed unescape? "id".toList
      [("id".toList, .number ⟨false, ['7'], none, none⟩),
        ("method".toList, .number ⟨false, ['1'], none, some (false, "999".toList)⟩)] =
      [.number ⟨false, ['7'], none, none⟩] := by simp [membersNamed, unescape?]
  have hvalue : (Tree.number ⟨false, ['7'], none, none⟩).value? unescape? (maxDepth - 1) =
      some (.number (.int 7)) := by
    have hnumber : Numeral.number? ⟨false, ['7'], none, none⟩ = some (.int 7) := by decide +kernel
    rw [Tree.value?, hnumber, Option.map_some]
  obtain ⟨found, tree, hfound, hfoundId, -⟩ := h _ _ _ _ _ _ hresponse hmembers hid hvalue (by simp)
  rw [hread] at hfound
  cases hfound
  simp [membersNamed, unescape?] at hfoundId

end PromptScript.Rpc
