import PromptScript.Proofs.Parsing.Recognition
import PromptScript.Proofs.RoundTrip.Origin
import PromptScript.Registry

/-!
# What can be the kind of a reference

The scanner reads name characters after an at sign as the kind of a reference; validation and
registries ask for kind characters. The two classes come from different tables. They agree on ASCII
characters, on letters and on decimal digits; on a character where they part, the scanner reads a
kind that is not valid, or a valid kind cannot be written.
-/

namespace PromptScript

namespace Text

/-- Whether the scanner and the rules for kinds disagree on a character. -/
def isDisputed (c : Char) : Bool :=
  isWord c != joinsWord c

/-- Whether a text right after an at sign is read as one name and nothing else. -/
def IsReadAsKind (kind : Text) : Prop :=
  (Token.ofText ('@' :: kind)).map (fun t => (t.kind, t.text)) =
    [(.referenceStart, ['@']), (.identifier, kind), (.eof, [])]

variable {c : Char} {kind : Text}

/-- The two classes agree on a character that is not disputed. -/
theorem isName_eq_isKindChar (h : isDisputed c = false) : isName c = isKindChar c := by
  rw [isName, isKindChar, bne_eq_false_iff_eq.mp h]

/-- The classes agree on ASCII characters. -/
theorem isDisputed_of_ascii (h : c.toNat < 0x80) : isDisputed c = false := by
  have halnum : isAlphanumeric c = c.isAlphanum := if_pos h
  have hword : isWord c = (c.isAlphanum || c == '_') := if_pos h
  rw [isDisputed, hword, joinsWord, halnum, bne_self_eq_false]

/-- A disputed character belongs to one of the classes alone. -/
theorem isName_ne_isKindChar (h : isDisputed c = true) : isName c ≠ isKindChar c := by
  have hmark {m : Char} (hm : m.toNat < 0x80) : c ≠ m := by
    rintro rfl
    rw [isDisputed_of_ascii hm] at h
    cases h
  have hcolon : (c == ':') = false := beq_eq_false_iff_ne.mpr (hmark (by decide))
  have hhyphen : (c == '-') = false := beq_eq_false_iff_ne.mpr (hmark (by decide))
  simpa [isName, isKindChar, hcolon, hhyphen] using bne_iff_ne.mp h

/-- A decimal digit is a numeral. -/
theorem inRanges_numeral {n : Nat} (h : inRanges decimalRanges n = true) :
    inRanges numeralRanges n = true := by
  have hinside : decimalRanges.all (fun d => numeralRanges.any fun range =>
      range.1 ≤ d.1 && d.2 ≤ range.2) = true := by decide +kernel
  obtain ⟨d, hd, hn⟩ := List.any_eq_true.mp h
  obtain ⟨range, hrange, hwithin⟩ := List.any_eq_true.mp (List.all_eq_true.mp hinside d hd)
  refine List.any_eq_true.mpr ⟨range, hrange, ?_⟩
  simp only [Bool.and_eq_true, decide_eq_true_eq] at hn hwithin ⊢
  omega

/-- The classes agree on letters and decimal digits that are not recent. -/
theorem isDisputed_of_letter
    (h : (inRanges alphabeticRanges c.toNat || inRanges decimalRanges c.toNat) = true)
    (hrecent : inRanges recentRanges c.toNat = false) : isDisputed c = false := by
  by_cases hascii : c.toNat < 0x80
  · exact isDisputed_of_ascii hascii
  · have hword : isWord c = true := by
      simp only [isWord, if_neg hascii, hrecent, Bool.false_eq_true, if_false]
      rcases Bool.or_eq_true_iff.mp h with hletter | hdigit
      · simp only [hletter, Bool.true_or]
      · simp only [hdigit, Bool.true_or, Bool.or_true]
    have hjoins : isAlphanumeric c = true := by
      simp only [isAlphanumeric, if_neg hascii]
      rcases Bool.or_eq_true_iff.mp h with hletter | hdigit
      · rw [hletter, Bool.true_or]
      · rw [inRanges_numeral hdigit, Bool.or_true]
    rw [isDisputed, hword, joinsWord, hjoins, Bool.true_or, bne_self_eq_false]

example : "λόγος१".toList.any isDisputed = false ∧ isDisputed '\u0301' = true := by
  decide +kernel

/-- A text without disputed characters is made of characters of both classes or of neither. -/
theorem all_isName_eq (h : kind.any isDisputed = false) :
    kind.all isName = kind.all isKindChar := by
  induction kind with
  | nil => rfl
  | cons c kind ih =>
    rw [List.any_cons, Bool.or_eq_false_iff] at h
    rw [List.all_cons, List.all_cons, isName_eq_isKindChar h.1, ih h.2]

/-- Only names are read as kinds. -/
theorem IsReadAsKind.isName (h : kind.IsReadAsKind) : kind ≠ [] ∧ kind.all Text.isName = true := by
  constructor
  · rintro rfl
    have hlone : (Token.ofText ['@']).map (fun t => (t.kind, t.text)) =
        [(.text, ['@']), (.eof, [])] := by decide +kernel
    rw [IsReadAsKind, hlone] at h
    cases h
  · have hmem : (Token.Kind.identifier, kind) ∈
        (Token.ofText ('@' :: kind)).map fun t => (t.kind, t.text) := by
      rw [IsReadAsKind] at h
      rw [h]
      simp
    obtain ⟨t, ht, heq⟩ := List.mem_map.mp hmem
    obtain ⟨hkind, htext⟩ := Prod.mk.inj heq
    have hholds := Token.holds_ofText _ t ht
    rw [hkind, htext] at hholds
    exact hholds

/-- The tokens of a name after an at sign. -/
theorem exists_tokens (hne : kind ≠ []) (hname : kind.all Text.isName = true) :
    ∃ p q : Position, Token.ofText ('@' :: kind) =
      [⟨.referenceStart, ['@'], .start⟩, ⟨.identifier, kind, p⟩, ⟨.eof, [], q⟩] := by
  have hscan : Piece.scan ('@' :: (kind ++ [])) = _ := Piece.scan_at hname rfl
  rw [List.append_nil] at hscan
  have hstart : Lexer.startsReference none (Piece.scan ('@' :: (kind ++ []))) = true := by
    rw [List.append_nil, hscan]
    have hlong : 0 < kind.length := List.length_pos_iff.mpr hne
    simp [Lexer.startsReference, hlong]
  have hphrase : Lexer.Phrase true none ('@' :: (kind ++ [])) _ _ _ :=
    .reference hname rfl hstart (.plain (by simp) (.bare (by simp)))
  rw [List.append_nil] at hphrase
  have htokens : Token.ofText ('@' :: kind) = _ := (Lexer.Phrases.cons hphrase .nil).tokens .start
  have hsome : Stretch.ofText .identifier kind = [.token .identifier kind] :=
    if_neg (by simpa using hne)
  rw [htokens, hsome]
  exact ⟨_, _, rfl⟩

/-- The names are the texts that are read as kinds. -/
theorem isReadAsKind_iff : kind.IsReadAsKind ↔ kind ≠ [] ∧ kind.all Text.isName = true := by
  refine ⟨IsReadAsKind.isName, fun ⟨hne, hname⟩ => ?_⟩
  obtain ⟨p, q, htokens⟩ := exists_tokens hne hname
  rw [IsReadAsKind, htokens]
  rfl

end Text

/-- A valid kind is not empty and has kind characters only. -/
theorem isValidKind_iff_all {kind : Text} :
    isValidKind kind = true ↔ kind ≠ [] ∧ kind.all Text.isKindChar = true := by
  simp [isValidKind]

/-- No text with a disputed character is wholly of one class and wholly of the other. -/
theorem Text.not_all_of_isDisputed {kind : Text} (h : kind.any isDisputed = true)
    (hname : kind.all isName = true) : ¬kind.all isKindChar = true := by
  intro hkind
  obtain ⟨c, hc, hdisputed⟩ := List.any_eq_true.mp h
  exact isName_ne_isKindChar hdisputed
    ((List.all_eq_true.mp hname c hc).trans (List.all_eq_true.mp hkind c hc).symm)

/-- A name is a valid kind if the classes agree on its characters, and only then. -/
theorem isValidKind_iff_of_isName {kind : Text} (hne : kind ≠ [])
    (hname : kind.all Text.isName = true) :
    isValidKind kind = true ↔ kind.any Text.isDisputed = false := by
  rw [isValidKind_iff_all]
  constructor
  · rintro ⟨-, hkind⟩
    rw [← Bool.not_eq_true]
    exact fun hdisputed => Text.not_all_of_isDisputed hdisputed hname hkind
  · intro hagree
    exact ⟨hne, Text.all_isName_eq hagree ▸ hname⟩

/-- A valid kind is a name if the classes agree on its characters, and only then. -/
theorem isReadAsKind_iff_of_isValidKind {kind : Text} (h : isValidKind kind = true) :
    kind.IsReadAsKind ↔ kind.any Text.isDisputed = false := by
  obtain ⟨hne, hkind⟩ := isValidKind_iff_all.mp h
  rw [Text.isReadAsKind_iff]
  constructor
  · rintro ⟨-, hname⟩
    rw [← Bool.not_eq_true]
    exact fun hdisputed => Text.not_all_of_isDisputed hdisputed hname hkind
  · intro hagree
    exact ⟨hne, (Text.all_isName_eq hagree).symm ▸ hkind⟩

/-- Validity and reading part on the texts with a disputed character that are wholly of one class. -/
theorem isValidKind_iff_isReadAsKind_iff {kind : Text} :
    (isValidKind kind = true ↔ kind.IsReadAsKind) ↔ kind.any Text.isDisputed = false ∨
      (kind.all Text.isName = false ∧ kind.all Text.isKindChar = false) := by
  cases hdisputed : kind.any Text.isDisputed with
  | false => simp [isValidKind_iff_all, Text.isReadAsKind_iff, Text.all_isName_eq hdisputed]
  | true =>
    have hne : kind ≠ [] := by
      rintro rfl
      cases hdisputed
    have hboth := Text.not_all_of_isDisputed hdisputed
    rw [isValidKind_iff_all, Text.isReadAsKind_iff]
    cases hname : kind.all Text.isName <;> cases hkind : kind.all Text.isKindChar <;> simp_all

/-- The kind of a reference of a script is a name or empty. -/
theorem Reference.kind_isName {source : Text} {r : Reference}
    (hr : r ∈ (Parsed.ofText source).document.references) : r.kind.all Text.isName = true := by
  have hform := Form.isWellFormed_ofText source none
  have hmem : r.lower ∈ (Compiled.ofText source none).form.references := List.mem_map_of_mem hr
  exact (hform.references _ hmem).kind_isName

/-- A name after an at sign is a script of one reference of that kind. -/
theorem exists_reference_of_isName {kind : Text} (hne : kind ≠ [])
    (hname : kind.all Text.isName = true) :
    ∃ r, (Parsed.ofText ('@' :: kind)).document.references = [r] ∧ r.kind = kind := by
  obtain ⟨p, q, htokens⟩ := Text.exists_tokens hne hname
  have hreferences := forall₂_references ('@' :: kind)
  have hheads : Token.referenceHeads (Token.ofText ('@' :: kind)) =
      [⟨⟨.referenceStart, ['@'], .start⟩, some ⟨.identifier, kind, p⟩, none,
        [⟨.eof, [], q⟩]⟩] := by
    rw [htokens]
    rfl
  rw [hheads] at hreferences
  generalize (Parsed.ofText ('@' :: kind)).document.references = rs at hreferences
  cases hreferences with
  | @cons _ r _ rs hnamed hrest =>
    cases hrest
    exact ⟨r, rfl, hnamed.kind⟩

/-- What is registered is a valid kind. -/
theorem Registry.isValidKind_of_register {registry registry' : Registry} {kind : Text}
    {resolver : Resolver} (h : registry.register kind resolver = .ok registry') :
    isValidKind kind = true := by
  rw [Registry.register] at h
  split at h
  · cases h
  · rename_i hvalid
    simpa using hvalid

/-- What is valid as a kind is what is read as one after an at sign, unless the text has a disputed
character and is otherwise wholly of one class. A non-empty kind of a reference of a script is valid
if it has no disputed character, and what can be registered can be written if it has none. ASCII
characters are not disputed, nor are letters and decimal digits that are not recent. -/
theorem kinds_settled (kind : Text) :
    ((isValidKind kind = true ↔ kind.IsReadAsKind) ↔ kind.any Text.isDisputed = false ∨
      (kind.all Text.isName = false ∧ kind.all Text.isKindChar = false)) ∧
    (∀ source : Text, ∀ r ∈ (Parsed.ofText source).document.references, r.kind = kind → kind ≠ [] →
      (isValidKind kind = true ↔ kind.any Text.isDisputed = false)) ∧
    (∀ (registry registry' : Registry) (resolver : Resolver),
      registry.register kind resolver = .ok registry' →
        ((∃ source, ∃ r ∈ (Parsed.ofText source).document.references, r.kind = kind) ↔
          kind.any Text.isDisputed = false)) ∧
    ((∀ c ∈ kind, c.toNat < 0x80 ∨
      ((Text.inRanges Text.alphabeticRanges c.toNat ||
          Text.inRanges Text.decimalRanges c.toNat) = true ∧
        Text.inRanges Text.recentRanges c.toNat = false)) → kind.any Text.isDisputed = false) := by
  refine ⟨?_, fun source r hr hkind hne => ?_, fun registry registry' resolver hregister => ?_,
    fun h => ?_⟩
  · exact isValidKind_iff_isReadAsKind_iff
  · exact isValidKind_iff_of_isName hne (hkind ▸ Reference.kind_isName hr)
  · have hvalid := Registry.isValidKind_of_register hregister
    obtain ⟨hne, -⟩ := isValidKind_iff_all.mp hvalid
    rw [← isReadAsKind_iff_of_isValidKind hvalid, Text.isReadAsKind_iff]
    constructor
    · rintro ⟨source, r, hr, rfl⟩
      exact ⟨hne, Reference.kind_isName hr⟩
    · rintro ⟨-, hname⟩
      obtain ⟨r, hreferences, hkind⟩ := exists_reference_of_isName hne hname
      exact ⟨'@' :: kind, r, by simp [hreferences], hkind⟩
  · refine List.any_eq_false.mpr fun c hc => ?_
    rw [Bool.not_eq_true]
    rcases h c hc with hascii | ⟨hletter, hrecent⟩
    · exact Text.isDisputed_of_ascii hascii
    · exact Text.isDisputed_of_letter hletter hrecent

/-- The classes are not one: a combining acute accent is read as the kind of a reference and is not
valid; a superscript two is valid and is the kind of no reference of any script. -/
theorem kinds_settled_fails :
    (¬∀ kind : Text, isValidKind kind = true ↔ kind.IsReadAsKind) ∧
    (¬∀ source : Text, ∀ r ∈ (Parsed.ofText source).document.references, r.kind ≠ [] →
      isValidKind r.kind = true) ∧
    ¬∀ kind : Text, isValidKind kind = true →
      ∃ source, ∃ r ∈ (Parsed.ofText source).document.references, r.kind = kind := by
  have hmark : isValidKind ['\u0301'] = false := by decide +kernel
  have hsuper : isValidKind ['\u00b2'] = true := by decide +kernel
  have hread : Text.IsReadAsKind ['\u0301'] :=
    Text.isReadAsKind_iff.mpr ⟨by decide, by decide +kernel⟩
  refine ⟨fun h => ?_, fun h => ?_, fun h => ?_⟩
  · rw [(h _).mpr hread] at hmark
    cases hmark
  · obtain ⟨hne, hname⟩ := hread.isName
    obtain ⟨r, hreferences, hkind⟩ := exists_reference_of_isName hne hname
    have hvalid := h ['@', '\u0301'] r (by rw [hreferences]; simp) (by rw [hkind]; exact hne)
    rw [hkind, hmark] at hvalid
    cases hvalid
  · obtain ⟨source, r, hr, hkind⟩ := h _ hsuper
    have hname := Reference.kind_isName hr
    rw [hkind] at hname
    exact absurd hname (by decide +kernel)

end PromptScript
