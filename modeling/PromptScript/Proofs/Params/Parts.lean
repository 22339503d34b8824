import PromptScript.Proofs.Params.Cuts
import PromptScript.Proofs.Text.Offsets

/-!
# Parts in one pass

A body can be cut in one pass over its characters, which carries the nesting across the cuts and
takes each part out by its byte offsets. At a separator that counts nothing is left of the nesting,
so the pass gives the same parts as cutting anew behind each separator. The parts with separators
between them are the body again, and no part can be cut further.
-/

namespace PromptScript.Params

open Text (byteLength slice?)

/-- The parts of a text, with the nesting before what is left of it, the offset at which the part
begins that is being read, and the offset of the next character. The marks are looked at before the
separator, and each slice is checked. -/
def partsAt? (separator : Char) (t : Text) (n : Nesting) (start offset : Nat) :
    Text → Option (List Text)
  | [] => (slice? t start (byteLength t)).map ([·])
  | c :: rest =>
    if c ∉ Nesting.marks ∧ c = separator ∧ n.isTop = true then do
      let part ← slice? t start offset
      let parts ← partsAt? separator t n (offset + c.utf8Size) (offset + c.utf8Size) rest
      some (part :: parts)
    else partsAt? separator t (n.step c) start (offset + c.utf8Size) rest

/-- The parts of a text between the separators outside quotes and brackets, in one pass. -/
def splitTop? (separator : Char) (t : Text) : Option (List Text) :=
  partsAt? separator t .top 0 0 t

variable {separator : Char}

/-- Past a part of a text, the pass gives that part with what belongs to it, and the further
parts. -/
theorem partsAt?_eq (hmarks : separator ∉ Nesting.marks) {n : Nesting} (hn : n.IsSettled)
    (front part rest : Text) :
    partsAt? separator (front ++ part ++ rest) n (byteLength front) (byteLength (front ++ part)) rest =
      some ((part ++ (partsFrom separator n rest).1) :: (partsFrom separator n rest).2) := by
  induction rest generalizing n front part with
  | nil =>
    have hslice := Text.slice?_append front part []
    rw [← Text.byteLength_append] at hslice
    rw [partsAt?, List.append_nil, partsFrom, List.append_nil]
    rw [List.append_nil] at hslice
    rw [hslice, Option.map_some]
  | cons c rest ih =>
    have hoffset : byteLength (front ++ part) + c.utf8Size = byteLength (front ++ part ++ [c]) := by
      rw [Text.byteLength_append (front ++ part), Text.byteLength_cons, Text.byteLength_nil,
        Nat.add_zero]
    have htext : front ++ part ++ c :: rest = front ++ part ++ [c] ++ rest := by simp
    rw [partsAt?, partsFrom, hoffset]
    by_cases hcut : c = separator ∧ n.isTop = true
    · -- nothing is left of what came before, so the nesting that is carried on is the top
      obtain ⟨rfl, htop⟩ := hcut
      obtain rfl := hn.eq_top htop
      have hslice := Text.slice?_append front part (c :: rest)
      rw [← Text.byteLength_append] at hslice
      have hrest := ih hn (front ++ part ++ [c]) []
      rw [List.append_nil, ← htext] at hrest
      rw [if_pos ⟨hmarks, rfl, htop⟩, if_pos ⟨rfl, htop⟩, hslice, hrest, List.append_nil]
      rfl
    · have hpass : ¬(c ∉ Nesting.marks ∧ c = separator ∧ n.isTop = true) := fun h => hcut h.2
      have hrest := ih (hn.step c) front (part ++ [c])
      rw [← List.append_assoc, ← htext] at hrest
      rw [if_neg hpass, if_neg hcut, hrest, List.append_assoc, List.singleton_append]

/-- One pass over a text gives its parts. -/
theorem splitTop?_eq (hmarks : separator ∉ Nesting.marks) (t : Text) :
    splitTop? separator t = some (splitTop separator t) :=
  partsAt?_eq hmarks Nesting.isSettled_top [] [] t

/-- The parts of a text with separators between them are the text. -/
theorem join_splitTop (separator : Char) (t : Text) :
    Text.join [separator] (splitTop separator t) = t := by
  induction t using induction_on_cuts separator with
  | last t huncut =>
    rw [splitTop_of_isUncut huncut, Text.join, List.intercalate_singleton]
  | more part rest huncut htop ih =>
    obtain ⟨next, parts, hparts⟩ : ∃ next parts, splitTop separator rest = next :: parts := ⟨_, _, rfl⟩
    rw [hparts, Text.join] at ih
    rw [splitTop_append_cons huncut htop, hparts, Text.join, List.intercalate_cons_cons, ih]
    simp

/-- No separator of a part counts. -/
theorem isUncut_of_mem_splitTop {t part : Text} (h : part ∈ splitTop separator t) :
    IsUncut separator .top part := by
  induction t using induction_on_cuts separator with
  | last t huncut =>
    rw [splitTop_of_isUncut huncut] at h
    rwa [List.mem_singleton.mp h]
  | more first rest huncut htop ih =>
    rw [splitTop_append_cons huncut htop] at h
    rcases List.mem_cons.mp h with rfl | h
    · exact huncut
    · exact ih h

/-- Cutting a text loses nothing and leaves nothing to cut, for every separator that is neither a
quote nor a bracket: the parts with separators between them are the text, and each part is its own
only part. The pass that carries its nesting across the cuts and slices by byte offsets gives these
parts. -/
theorem parts_whole_and_atomic (hmarks : separator ∉ Nesting.marks) (t : Text) :
    splitTop? separator t = some (splitTop separator t) ∧
      Text.join [separator] (splitTop separator t) = t ∧
      ∀ part ∈ splitTop separator t, splitTop separator part = [part] :=
  ⟨splitTop?_eq hmarks t, join_splitTop separator t,
    fun _ h => splitTop_of_isUncut (isUncut_of_mem_splitTop h)⟩

/-- A bracket that closes nothing, a bracket that is open across separators, and a quote that is never
closed with a backslash at its end. -/
theorem parts_whole_and_atomic_ragged :
    ',' ∉ Nesting.marks ∧
      splitTop? ',' "a],[b,(c,]),\"d,\\".toList =
        some ["a]".toList, "[b,(c,])".toList, "\"d,\\".toList] ∧
      Text.join [','] ["a]".toList, "[b,(c,])".toList, "\"d,\\".toList] =
        "a],[b,(c,]),\"d,\\".toList ∧
      splitTop ',' "\"d,\\".toList = ["\"d,\\".toList] := by
  have hcomma : ',' ∉ Nesting.marks := by decide
  have hparts : splitTop ',' "a],[b,(c,]),\"d,\\".toList =
      ["a]".toList, "[b,(c,])".toList, "\"d,\\".toList] := by decide
  obtain ⟨hpass, hjoin, hatomic⟩ := parts_whole_and_atomic hcomma "a],[b,(c,]),\"d,\\".toList
  rw [hparts] at hpass hjoin hatomic
  exact ⟨hcomma, hpass, hjoin, hatomic _ (by simp)⟩

end PromptScript.Params
