import PromptScript.CommandLine.Program
import PromptScript.Proofs.Json.Written
import PromptScript.Proofs.Text.Utf8

/-!
# Requests and responses, line by line

An input is cut at its line breaks. Each line that is text and not blank has one response, in the
order of the lines, up to the first line that is not text; the engine that answers a line is the
one past the answers before it. A response is printed without control characters, so it is one
line of the output, and the lines of the output are the responses.
-/

namespace PromptScript.Rpc

open Json Text

/-- The lines of an input: what stands between its line breaks, without one carriage return at the
end. Nothing after the last line break is no line. -/
def lines (input : List UInt8) : List (List UInt8) :=
  let parts := input.splitOn 10
  (if parts.getLast? = some [] then parts.dropLast else parts).map dropReturn

/-- Past a byte, a cut at line breaks adds an empty line or goes on with the first one. -/
theorem splitOn_cons (b : UInt8) (rest : List UInt8) : (b :: rest).splitOn 10 =
    if b = 10 then [] :: rest.splitOn 10 else (rest.splitOn 10).modifyHead (b :: ·) := by
  simp only [List.splitOn, List.splitOnP_cons_eq_if_modifyHead, beq_iff_eq]

/-- A cut at line breaks gives a line at least. -/
theorem splitOn_ne_nil (input : List UInt8) : input.splitOn 10 ≠ [] :=
  List.splitOnP_ne_nil _ input

/-- The pieces of an input are its parts between line breaks without an empty one at the end. -/
theorem splitOn_eq_pieces (input : List UInt8) : input.splitOn 10 = pieces input ++ [[]] ∨
    input.splitOn 10 = pieces input ∧ (pieces input).getLast? ≠ some [] := by
  induction input with
  | nil => exact .inl (by simp [pieces])
  | cons b rest ih =>
    rw [splitOn_cons, pieces]
    have hne := splitOn_ne_nil rest
    split
    · rcases ih with h | ⟨h, hlast⟩
      · exact .inl (by rw [h]; rfl)
      · refine .inr ⟨by rw [h], ?_⟩
        rw [h] at hne
        rwa [List.getLast?_cons_of_ne_nil hne]
    · cases hpieces : pieces rest with
      | nil =>
        rcases ih with h | ⟨h, hlast⟩
        · exact .inr ⟨by rw [h, hpieces]; rfl, by simp⟩
        · exact absurd (h.trans hpieces) hne
      | cons piece others =>
        rw [hpieces] at ih
        rcases ih with h | ⟨h, hlast⟩
        · exact .inl (by rw [h]; rfl)
        · refine .inr ⟨by rw [h]; rfl, ?_⟩
          cases others with
          | nil => simp
          | cons => exact hlast

/-- The lines of an input are its pieces, each without a carriage return at its end. -/
theorem lines_eq (input : List UInt8) : lines input = (pieces input).map dropReturn := by
  rcases splitOn_eq_pieces input with h | ⟨h, hlast⟩
  · simp [lines, h]
  · simp [lines, h, hlast]

/-- No response holds control characters. -/
theorem isPrintable_handleLine {e : Engine} {line response : Text}
    (h : (handleLine e line).1 = some response) : isPrintable response = true := by
  simp only [handleLine] at h
  split at h
  · cases h
  · cases h
    exact isPrintable_compact _

/-- A line has a response unless it is blank. -/
theorem handleLine_eq_none_iff {e : Engine} {line : Text} :
    (handleLine e line).1 = none ↔ trim line = [] := by
  simp only [handleLine, ← List.isEmpty_iff]
  split <;> simp [*]

/-- The responses to lines in turn, each by the engine past the answers before it. -/
inductive Answered : Engine → List Text → List Text → Prop
  | nil (e : Engine) : Answered e [] []
  | cons {e after : Engine} {line response : Text} {lines responses : List Text}
      (h : handleLine e line = (some response, after)) (rest : Answered after lines responses) :
      Answered e (line :: lines) (response :: responses)

/-- Whether a line is not blank. -/
def isFilled (line : Text) : Bool :=
  !(trim line).isEmpty

namespace Answered

variable {e : Engine} {lines responses : List Text}

/-- Each line has its response. -/
theorem length_eq (h : Answered e lines responses) : responses.length = lines.length := by
  induction h with
  | nil => rfl
  | cons _ _ ih => rw [List.length_cons, List.length_cons, ih]

/-- The responses hold no control characters. -/
theorem isPrintable (h : Answered e lines responses) :
    ∀ response ∈ responses, Text.isPrintable response = true := by
  induction h with
  | nil => simp
  | cons hfirst _ ih =>
    exact List.forall_mem_cons.mpr ⟨isPrintable_handleLine (congrArg Prod.fst hfirst), ih⟩

end Answered

/-- The lines that are served are those up to the first that is not text. -/
theorem exists_serveLines (e : Engine) (lines : List (List UInt8)) :
    ∃ (texts : List Text) (unread : List (List UInt8)) (responses : List Text),
      lines = texts.map utf8 ++ unread ∧
      (∀ line ∈ unread.head?, ∀ t, line ≠ utf8 t) ∧
      Answered e (texts.filter isFilled) responses ∧
      serveLines e lines = (responses, unread.isEmpty) := by
  induction lines generalizing e with
  | nil => exact ⟨[], [], [], rfl, by simp, .nil e, rfl⟩
  | cons line rest ih =>
    cases htext : ofUtf8? line with
    | none =>
      refine ⟨[], line :: rest, [], rfl, ?_, .nil e, by rw [serveLines, htext]; rfl⟩
      rintro _ ⟨⟩ t rfl
      rw [ofUtf8?_utf8] at htext
      cases htext
    | some text =>
      obtain rfl := ofUtf8?_eq_some_iff.mp htext
      obtain ⟨response, after, hhandle⟩ : ∃ response after, handleLine e text = (response, after) :=
        ⟨_, _, rfl⟩
      obtain ⟨texts, unread, responses, hrest, hunread, hanswered, hserve⟩ := ih after
      refine ⟨text :: texts, unread, response.toList ++ responses, by rw [hrest]; rfl, hunread,
        ?_, by simp only [serveLines, htext, hhandle, hserve]⟩
      cases response with
      | none =>
        have hblank : trim text = [] := handleLine_eq_none_iff.mp (congrArg Prod.fst hhandle)
        have hsame : after = e := by
          simp only [handleLine, hblank, List.isEmpty_nil, if_true] at hhandle
          exact (congrArg Prod.snd hhandle).symm
        rw [List.filter_cons_of_neg (by simp [isFilled, hblank]), ← hsame]
        exact hanswered
      | some response =>
        have hfilled : trim text ≠ [] := by
          rw [Ne, ← handleLine_eq_none_iff (e := e), hhandle]
          simp
        rw [List.filter_cons_of_pos (by simpa [isFilled] using hfilled)]
        exact .cons hhandle hanswered

/-- Texts without line breaks are the lines of the text that has a break after each of them. -/
theorem splitOn_flatMap {texts : List Text} (h : ∀ t ∈ texts, '\n' ∉ t) :
    (texts.flatMap fun t => t ++ ['\n']).splitOn '\n' = texts ++ [[]] := by
  induction texts with
  | nil => rfl
  | cons t texts ih =>
    obtain ⟨ht, hrest⟩ := List.forall_mem_cons.mp h
    have hplain : ∀ c ∈ t, (c == '\n') = false := fun c hc =>
      beq_eq_false_iff_ne.mpr fun heq => ht (heq ▸ hc)
    rw [List.flatMap_cons, List.append_assoc, List.singleton_append, List.splitOn,
      List.splitOnP_append_cons_of_forall_mem hplain _ (beq_self_eq_true _)]
    exact congrArg (t :: ·) (ih hrest)

/-- Texts without line breaks make as many lines as they are. -/
theorem count_flatMap {texts : List Text} (h : ∀ t ∈ texts, '\n' ∉ t) :
    (texts.flatMap fun t => t ++ ['\n']).count '\n' = texts.length := by
  induction texts with
  | nil => rfl
  | cons t texts ih =>
    obtain ⟨ht, hrest⟩ := List.forall_mem_cons.mp h
    rw [List.flatMap_cons, List.count_append, ih hrest, List.count_append,
      List.count_eq_zero_of_not_mem ht, List.length_cons]
    simp only [List.count_singleton_self]
    omega

open CommandLine in
/-- An input is answered line by line. Its lines are texts up to the first that is not text; those
that are not blank have one response each, in their order, and each response is a line of the
output. All of the input is read exactly if all its lines are text. -/
theorem ofInput_lines (e : Engine) (input : List UInt8) :
    (∀ line response, (handleLine e line).1 = some response → ∀ c ∈ response, 32 ≤ c.toNat) ∧
    ∃ (texts : List Text) (unread : List (List UInt8)) (responses : List Text),
      lines input = texts.map utf8 ++ unread ∧
      (∀ line ∈ unread.head?, ∀ t, line ≠ utf8 t) ∧
      Answered e (texts.filter isFilled) responses ∧
      (Outcome.ofInput e input).output = responses.flatMap (fun response => response ++ ['\n']) ∧
      (Outcome.ofInput e input).output.splitOn '\n' = responses ++ [[]] ∧
      (Outcome.ofInput e input).output.count '\n' = (texts.filter isFilled).length ∧
      ((Outcome.ofInput e input).code = 0 ↔ ∀ line ∈ lines input, ∃ t, line = utf8 t) := by
  refine ⟨fun line response h c hc =>
    of_decide_eq_true (List.all_eq_true.mp (isPrintable_handleLine h) c hc), ?_⟩
  obtain ⟨texts, unread, responses, hlines, hunread, hanswered, hserve⟩ :=
    exists_serveLines e (lines input)
  have hbreaks : ∀ response ∈ responses, '\n' ∉ response := fun response hmem =>
    not_mem_newline_of_isPrintable (hanswered.isPrintable response hmem)
  have houtput : (Outcome.ofInput e input).output =
      responses.flatMap (fun response => response ++ ['\n']) := by
    rw [lines_eq] at hserve
    simp only [Outcome.ofInput, serve, hserve]
    split <;> rfl
  have hcode : (Outcome.ofInput e input).code = 0 ↔ unread = [] := by
    rw [lines_eq] at hserve
    simp only [Outcome.ofInput, serve, hserve, ← List.isEmpty_iff]
    split <;> simp [*]
  refine ⟨texts, unread, responses, hlines, hunread, hanswered, houtput, ?_, ?_, ?_⟩
  · rw [houtput, splitOn_flatMap hbreaks]
  · rw [houtput, count_flatMap hbreaks, hanswered.length_eq]
  · rw [hcode, hlines]
    constructor
    · rintro rfl line hmem
      rw [List.append_nil, List.mem_map] at hmem
      obtain ⟨t, -, rfl⟩ := hmem
      exact ⟨t, rfl⟩
    · intro htexts
      cases unread with
      | nil => rfl
      | cons line rest =>
        obtain ⟨t, heq⟩ := htexts line (by simp)
        exact absurd heq (hunread line rfl t)

end PromptScript.Rpc
