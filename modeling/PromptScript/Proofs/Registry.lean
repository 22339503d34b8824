import PromptScript.Proofs.Dictionary
import PromptScript.Proofs.Text.Search
import PromptScript.Registry

/-!
# Registries over time

A registry grows by registrations and holds what those of them that succeed have given, each kind
once. So what becomes of a registration, and what resolver serves a kind, can be read off the
registrations before. A kind that is served stays served, whatever is registered.
-/

namespace PromptScript

/-- A call that gives a resolver for a kind, be it a resolver as such or a function that is called
for each request. -/
structure Registration where
  /-- The kind. -/
  kind : Text
  /-- What is to resolve references of the kind. -/
  resolver : Resolver

namespace Registry

/-- The registry after a registration, and the problem if it fails. Then the registry is what it
was. -/
def perform (r : Registry) (c : Registration) : Registry × Option Problem :=
  match r.register c.kind c.resolver with
  | .ok after => (after, none)
  | .error problem => (r, some problem)

/-- The registry after registrations in a row. -/
def performAll (r : Registry) (calls : List Registration) : Registry :=
  calls.foldl (fun r c => (r.perform c).1) r

/-- Registrations in a row, each with the problem that it meets, if any. -/
def attempts (r : Registry) : List Registration → List (Registration × Option Problem)
  | [] => []
  | c :: calls => (c, (r.perform c).2) :: (r.perform c).1.attempts calls

/-- The registrations that succeed. -/
def accepted (attempts : List (Registration × Option Problem)) : List Registration :=
  (attempts.filter (·.2.isNone)).map (·.1)

/-- A kind is among the registrations that succeed if one of them is of the kind. -/
theorem exists_accepted_iff {attempts : List (Registration × Option Problem)} {kind : Text} :
    (∃ c ∈ accepted attempts, c.kind = kind) ↔ ∃ e ∈ attempts, e.1.kind = kind ∧ e.2 = none := by
  simp [accepted]

variable {r : Registry}

/-- A kind is served by its own resolver, or else by that of the part before its first colon. -/
theorem lookup_eq (r : Registry) (kind : Text) :
    r.lookup kind = (r.resolvers.get? kind).or
      (if ':' ∈ kind then r.resolvers.get? (kind.takeWhile (· != ':')) else none) := by
  rw [lookup, serving?]
  cases hown : r.resolvers.get? kind with
  | some resolver => simp [Dictionary.contains, hown]
  | none =>
    have hcontains : r.resolvers.contains kind = false := by simp [Dictionary.contains, hown]
    rw [hcontains, if_neg Bool.false_ne_true, Option.none_or]
    cases hsplit : Text.splitFirst? (· == ':') kind with
    | none =>
      have hcolon : ':' ∉ kind := by
        intro hmem
        have hall := List.all_eq_true.mp (Text.splitFirst?_eq_none_iff.mp hsplit) ':' hmem
        simp at hall
      rw [if_neg hcolon]
      rfl
    | some parts =>
      obtain ⟨c, hc, rfl, hbefore⟩ := Text.splitFirst?_eq_some hsplit
      obtain rfl : c = ':' := by simpa using hc
      have htake : (parts.1 ++ ':' :: parts.2).takeWhile (· != ':') = parts.1 := by
        have hfree : ∀ x ∈ parts.1, (x != ':') = true := by simpa using hbefore
        rw [List.takeWhile_append_of_pos hfree]
        simp
      rw [if_pos (by simp), htake, Option.bind_some]
      cases hget : r.resolvers.get? parts.1 <;> simp [Dictionary.contains, hget]

/-- A kind is served if it is registered, or if the part before its first colon is. -/
theorem contains_iff (r : Registry) (kind : Text) :
    r.contains kind = true ↔ r.resolvers.contains kind = true ∨
      ':' ∈ kind ∧ r.resolvers.contains (kind.takeWhile (· != ':')) = true := by
  rw [contains, lookup_eq, Option.isSome_or, Bool.or_eq_true]
  refine or_congr Iff.rfl ?_
  split <;> simp_all [Dictionary.contains]

/-- A registration of a text that is no kind fails, and so does one of a kind that is registered.
Any other succeeds and gives the kind its resolver. -/
theorem perform_cases (r : Registry) (c : Registration) :
    (isValidKind c.kind = false ∧ r.perform c = (r, some (.invalidKind c.kind))) ∨
      (isValidKind c.kind = true ∧ r.resolvers.contains c.kind = true ∧
        r.perform c = (r, some (.duplicate c.kind))) ∨
      (isValidKind c.kind = true ∧ r.resolvers.contains c.kind = false ∧
        r.perform c = (⟨r.resolvers.insert c.kind c.resolver⟩, none)) := by
  unfold perform register
  cases isValidKind c.kind with
  | false => exact Or.inl ⟨rfl, rfl⟩
  | true =>
    cases r.resolvers.contains c.kind with
    | true => exact Or.inr (Or.inl ⟨rfl, rfl, rfl⟩)
    | false => exact Or.inr (Or.inr ⟨rfl, rfl, rfl⟩)

/-- A registration that fails leaves the registry as it is. -/
theorem perform_of_problem {c : Registration} (h : (r.perform c).2 ≠ none) :
    (r.perform c).1 = r := by
  rcases r.perform_cases c with ⟨-, hc⟩ | ⟨-, -, hc⟩ | ⟨-, -, hc⟩
  · rw [hc]
  · rw [hc]
  · rw [hc] at h
    exact absurd rfl h

/-- What is registered stays registered. -/
theorem contains_resolvers_perform {kind : Text} (h : r.resolvers.contains kind = true)
    (c : Registration) : (r.perform c).1.resolvers.contains kind = true := by
  rcases r.perform_cases c with ⟨-, hc⟩ | ⟨-, -, hc⟩ | ⟨-, -, hc⟩
  · rwa [hc]
  · rwa [hc]
  · rw [hc, Dictionary.contains, Dictionary.get?_insert]
    split
    · rfl
    · exact h

/-- A kind that is served stays served. -/
theorem contains_performAll {kind : Text} (h : r.contains kind = true)
    (calls : List Registration) : (r.performAll calls).contains kind = true := by
  induction calls generalizing r with
  | nil => exact h
  | cons c calls ih =>
    refine ih ((contains_iff _ kind).mpr ?_)
    rcases (r.contains_iff kind).mp h with hown | ⟨hcolon, hspace⟩
    · exact Or.inl (contains_resolvers_perform hown c)
    · exact Or.inr ⟨hcolon, contains_resolvers_perform hspace c⟩

/-- Registrations in a row are made one part after the other. -/
theorem performAll_append (r : Registry) (first rest : List Registration) :
    r.performAll (first ++ rest) = (r.performAll first).performAll rest :=
  List.foldl_append

/-- Every registration is attempted once, in order. -/
theorem map_fst_attempts (r : Registry) (calls : List Registration) :
    (r.attempts calls).map (·.1) = calls := by
  induction calls generalizing r with
  | nil => rfl
  | cons c calls ih => rw [attempts, List.map_cons, ih]

/-- What an attempt meets is met by the registry that those before it have left. -/
theorem attempts_eq_append {calls : List Registration}
    {earlier later : List (Registration × Option Problem)} {c : Registration}
    {answer : Option Problem} (h : r.attempts calls = earlier ++ (c, answer) :: later) :
    earlier = r.attempts (earlier.map (·.1)) ∧
      answer = ((r.performAll (earlier.map (·.1))).perform c).2 := by
  induction earlier generalizing r calls with
  | nil =>
    cases calls with
    | nil => cases h
    | cons d calls =>
      cases h
      exact ⟨rfl, rfl⟩
  | cons e earlier ih =>
    cases calls with
    | nil => cases h
    | cons d calls =>
      obtain ⟨rfl, hrest⟩ := List.cons.inj h
      obtain ⟨hearlier, hanswer⟩ := ih hrest
      refine ⟨?_, hanswer⟩
      rw [List.map_cons, attempts, ← hearlier]

/-- Whether a registry holds what registrations have given, and nothing else. -/
structure Holds (r : Registry) (made : List Registration) : Prop where
  /-- Each kind has the resolver that was given for it. -/
  get?_eq : ∀ kind, r.resolvers.get? kind = (made.find? (·.kind == kind)).map (·.resolver)
  /-- No kind was given a resolver twice. -/
  nodup : (made.map (·.kind)).Nodup
  /-- The texts are kinds. -/
  valid : ∀ c ∈ made, isValidKind c.kind = true
  /-- There are as many kinds as registrations. -/
  size_eq : r.size = made.length

namespace Holds

variable {made : List Registration}

/-- An empty registry holds what no registration has given. -/
theorem empty : Registry.empty.Holds [] :=
  ⟨fun _ => rfl, .nil, by simp, rfl⟩

/-- The registered kinds are those of the registrations. -/
theorem contains_iff (h : r.Holds made) (kind : Text) :
    r.resolvers.contains kind = true ↔ ∃ c ∈ made, c.kind = kind := by
  rw [Dictionary.contains, h.get?_eq, Option.isSome_map, List.find?_isSome]
  simp

/-- One more registration is held exactly if it succeeds. -/
theorem perform (h : r.Holds made) (c : Registration) :
    (r.perform c).1.Holds (made ++ accepted [(c, (r.perform c).2)]) := by
  rcases r.perform_cases c with ⟨-, hc⟩ | ⟨-, -, hc⟩ | ⟨hvalid, hnew, hc⟩
  · rw [hc]
    exact (List.append_nil made).symm ▸ h
  · rw [hc]
    exact (List.append_nil made).symm ▸ h
  · rw [hc]
    change Holds _ (made ++ [c])
    have hother : ∀ d ∈ made, d.kind ≠ c.kind := by
      intro d hd heq
      rw [(h.contains_iff c.kind).mpr ⟨d, hd, heq⟩] at hnew
      cases hnew
    refine ⟨fun kind => ?_, ?_, ?_, ?_⟩
    · rw [Dictionary.get?_insert, List.find?_append, h.get?_eq]
      by_cases hkind : kind = c.kind
      · have hnone : made.find? (·.kind == kind) = none := by
          refine List.find?_eq_none.mpr fun d hd => ?_
          simpa [hkind] using hother d hd
        rw [if_pos hkind, hnone]
        simp [hkind]
      · have hne : (c.kind == kind) = false := beq_eq_false_iff_ne.mpr (Ne.symm hkind)
        rw [if_neg hkind, List.find?_cons_of_neg (by simp [hne]), List.find?_nil, Option.or_none]
    · rw [List.map_append, List.nodup_append]
      refine ⟨h.nodup, by simp, fun kind hkind other hown => ?_⟩
      obtain ⟨d, hd, rfl⟩ := List.mem_map.mp hkind
      rw [List.mem_singleton.mp hown]
      exact hother d hd
    · exact List.forall_mem_append.mpr ⟨h.valid, List.forall_mem_singleton.mpr hvalid⟩
    · rw [List.length_append, ← h.size_eq]
      exact Dictionary.size_insert hnew c.resolver

/-- Registrations in a row are held if they succeed. -/
theorem performAll (h : r.Holds made) (calls : List Registration) :
    (r.performAll calls).Holds (made ++ accepted (r.attempts calls)) := by
  induction calls generalizing r made with
  | nil => exact (List.append_nil made).symm ▸ h
  | cons c calls ih =>
    have hrest := ih (h.perform c)
    rw [List.append_assoc] at hrest
    have hsplit : accepted (r.attempts (c :: calls)) =
        accepted [(c, (r.perform c).2)] ++ accepted ((r.perform c).1.attempts calls) := by
      unfold accepted
      rw [← List.map_append, ← List.filter_append]
      rfl
    rw [hsplit]
    exact hrest

end Holds

/-- What an attempt meets is decided by its own kind and the kinds registered before. -/
theorem answer_eq {calls : List Registration} {earlier later : List (Registration × Option Problem)}
    {c : Registration} {answer : Option Problem}
    (h : empty.attempts calls = earlier ++ (c, answer) :: later) :
    answer =
      if isValidKind c.kind = false then some (.invalidKind c.kind)
      else if ∃ e ∈ earlier, e.1.kind = c.kind ∧ e.2 = none then some (.duplicate c.kind)
      else none := by
  obtain ⟨hearlier, rfl⟩ := attempts_eq_append h
  have hbefore := Holds.empty.performAll (earlier.map (·.1))
  rw [← hearlier, List.nil_append] at hbefore
  have hknown := (hbefore.contains_iff c.kind).trans exists_accepted_iff
  rcases (empty.performAll (earlier.map (·.1))).perform_cases c with
    ⟨hvalid, hc⟩ | ⟨hvalid, hold, hc⟩ | ⟨hvalid, hnew, hc⟩
  · rw [hc, if_pos hvalid]
  · rw [hc, if_neg (by simp [hvalid]), if_pos (hknown.mp hold)]
  · rw [hc, if_neg (by simp [hvalid]), if_neg fun hold => by simp [hknown.mpr hold] at hnew]

end Registry

/-- Every registration is accounted for by those before it. One of a text that is no kind is refused
as such, and one of a kind that an earlier one has registered as a duplicate; no other fails, and
one that fails leaves the registry as it is. The registered kinds are in strictly increasing order,
each is a kind, and they are as many as the registrations that succeed, which are of different
kinds. A kind is served by the resolver that was given for it, or else by that given for the part
before its first colon, if it has one. -/
theorem registrations_accounted (calls : List Registration) :
    let attempts := Registry.empty.attempts calls
    let registry := Registry.empty.performAll calls
    let accepted := (attempts.filter (·.2.isNone)).map (·.1)
    attempts.map (·.1) = calls ∧
      (∀ earlier c answer later, attempts = earlier ++ (c, answer) :: later →
        (answer =
          if isValidKind c.kind = false then some (.invalidKind c.kind)
          else if ∃ e ∈ earlier, e.1.kind = c.kind ∧ e.2 = none then some (.duplicate c.kind)
          else none) ∧
        (answer ≠ none → Registry.empty.performAll (earlier.map (·.1) ++ [c]) =
          Registry.empty.performAll (earlier.map (·.1)))) ∧
      registry.kinds.Pairwise (· < ·) ∧ (∀ kind ∈ registry.kinds, isValidKind kind = true) ∧
      registry.size = registry.kinds.length ∧ registry.size = accepted.length ∧
      (accepted.map (·.kind)).Nodup ∧
      ∀ kind,
        registry.lookup kind =
          ((accepted.find? (·.kind == kind)).or
            (if ':' ∈ kind then accepted.find? (·.kind == kind.takeWhile (· != ':'))
            else none)).map (·.resolver) ∧
        (registry.contains kind = true ↔ ∃ resolver, registry.lookup kind = some resolver) := by
  intro attempts registry accepted
  have hholds : registry.Holds accepted := Registry.Holds.empty.performAll calls
  refine ⟨Registry.map_fst_attempts _ calls, fun earlier c answer later hsplit => ?_,
    List.pairwise_map.mpr registry.resolvers.sorted, fun kind hkind => ?_,
    (List.length_map _).symm, hholds.size_eq, hholds.nodup,
    fun kind => ⟨?_, Option.isSome_iff_exists⟩⟩
  · refine ⟨Registry.answer_eq hsplit, fun hproblem => ?_⟩
    rw [Registry.performAll_append]
    exact Registry.perform_of_problem ((Registry.attempts_eq_append hsplit).2 ▸ hproblem)
  · have hcontains := Dictionary.contains_iff_mem_keys.mpr hkind
    obtain ⟨c, hc, rfl⟩ := (hholds.contains_iff kind).mp hcontains
    exact hholds.valid c hc
  · rw [Registry.lookup_eq, hholds.get?_eq, hholds.get?_eq]
    split
    · rw [Option.map_or]
    · rw [Option.or_none, Option.or_none]

end PromptScript
