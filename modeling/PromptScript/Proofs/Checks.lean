import Mathlib
import PromptScript.Document.Item
import PromptScript.Form.Render
import PromptScript.Proofs.Lexing.Stepping

/-!
# No check fails

The lexer, the grouping of a reference body and the test of a written body count and index without
asking first. Here each of them is run with its checks made: a slice or an index out of range, a
cut inside a character, a count below nothing or a loop that never ends would give nothing. All of
them give what the unchecked ones give.
-/

namespace PromptScript

/-- The tokens of a body inside so many braces, with the count of braces checked. -/
def Item.splitBraced? (depth : Nat) : List Token → Option (List Token × Option Token × List Token)
  | [] => some ([], none, [])
  | t :: rest =>
    if t.kind = .braceClose then do
      let inside ← sub? depth 1
      if inside = 0 then some ([], some t, rest)
      else do
        let (inner, closing, after) ← splitBraced? inside rest
        some (t :: inner, closing, after)
    else if t.kind = .eof then some ([], some t, rest)
    else do
      let (inner, closing, after) ←
        splitBraced? (if t.kind = .braceOpen then depth + 1 else depth) rest
      some (t :: inner, closing, after)

/-- Whether a body inside so many braces closes all of them but one, and never that one, with the
count of braces checked. -/
def closesFrom? (depth : Nat) : Text → Option Bool
  | [] => some (depth == 1)
  | c :: rest =>
    if c = '{' then closesFrom? (depth + 1) rest
    else if c = '}' then do
      let inside ← sub? depth 1
      if inside = 0 then some false else closesFrom? inside rest
    else closesFrom? depth rest

/-- Inside a brace the count of a body never falls below nothing, whatever the tokens are. -/
theorem Item.splitBraced?_eq {depth : Nat} (hdepth : 1 ≤ depth) (tokens : List Token) :
    splitBraced? depth tokens = some (splitBraced depth tokens) := by
  induction tokens generalizing depth with
  | nil => rfl
  | cons t rest ih =>
    rw [splitBraced?, splitBraced]
    by_cases hclose : t.kind = .braceClose
    · by_cases hlast : depth ≤ 1
      · have hzero : depth - 1 = 0 := by omega
        simp [hclose, hlast, hzero, sub?_of_le hdepth]
      · have hinside : depth - 1 ≠ 0 := by omega
        simp [hclose, hlast, hinside, sub?_of_le hdepth, ih (show 1 ≤ depth - 1 by omega)]
    · by_cases heof : t.kind = .eof
      · simp [heof]
      · by_cases hopen : t.kind = .braceOpen
        · simp [hopen, ih (Nat.le_add_left 1 depth)]
        · simp [hclose, heof, hopen, ih hdepth]

/-- Inside a brace the count of a written body never falls below nothing. -/
theorem closesFrom?_eq {depth : Nat} (hdepth : 1 ≤ depth) (body : Text) :
    closesFrom? depth body = some (closesFrom depth body) := by
  induction body generalizing depth with
  | nil => rfl
  | cons c rest ih =>
    rw [closesFrom?, closesFrom]
    by_cases hopen : c = '{'
    · rw [if_pos hopen, if_pos hopen, ih (Nat.le_add_left 1 depth)]
    · rw [if_neg hopen, if_neg hopen]
      by_cases hclose : c = '}'
      · rw [if_pos hclose, if_pos hclose, sub?_of_le hdepth]
        by_cases hlast : 2 ≤ depth
        · have hinside : depth - 1 ≠ 0 := by omega
          simp [hlast, hinside, ih (show 1 ≤ depth - 1 by omega)]
        · have hzero : depth - 1 = 0 := by omega
          simp [hlast, hzero]
      · rw [if_neg hclose, if_neg hclose, ih hdepth]

namespace CheckedLexer

/-- A state that the lexer over offsets reaches on a script, token by token. -/
inductive Reaches (source : Text) : CheckedLexer → Prop
  | start : Reaches source (ofText source)
  | next {m after : CheckedLexer} {token : Token} (h : Reaches source m)
      (hnext : m.next? = some (some (token, after))) : Reaches source after

/-- A state that is reached stands for one of the lexer over pieces. -/
theorem Reaches.exists_matches {source : Text} {m : CheckedLexer} (h : Reaches source m) :
    m.source = source ∧ ∃ l, Matches m l := by
  induction h with
  | start => exact ⟨rfl, _, matches_ofText source⟩
  | @next m after token _ hnext ih =>
    obtain ⟨hsource, l, hmatches⟩ := ih
    have hstep := hmatches.steps
    split at hstep
    · rw [hnext] at hstep
      cases hstep
    · obtain ⟨r, hr, afterwards, rfl, hafter, hsame, -⟩ := hstep
      rw [hnext] at hr
      cases hr
      exact ⟨hsame.trans hsource, _, hafter⟩

/-- The offset is where a character of the script ends. -/
theorem Matches.exists_passed {m : CheckedLexer} {l : Lexer} (h : Matches m l) :
    ∃ passed rest, m.source = passed ++ rest ∧ Text.byteLength passed = m.pos := by
  cases h with
  | tracks h =>
    rw [h.source_eq, h.pos_eq, Piece.join_append]
    exact ⟨_, _, rfl, rfl⟩
  | @glued front c name _ _ hover _ hpos =>
    rw [hover.source_eq, hpos]
    exact ⟨Piece.join front ++ ['@'], c :: name ++ Piece.join l.pieces, by simp, by simp; rfl⟩

/-- In a body there are pieces ahead, since they close the braces that are open. -/
theorem Matches.cursor_lt {m : CheckedLexer} {l : Lexer} (h : Matches m l) {depth : Nat}
    (hbody : m.mode = .body depth) : m.cursor < m.raw.length := by
  cases h with
  | tracks h hmode hstands =>
    have hl : l.mode = .body depth := by
      rw [hbody] at hmode
      cases hmode' : l.mode <;> rw [hmode'] at hmode <;> cases hmode
      rfl
    rw [hl] at hstands
    have hne : l.pieces ≠ [] := by
      intro hnil
      rw [hnil] at hstands
      cases hstands.2
    rw [h.raw_eq, h.cursor_eq, Lexeme.length_ofPieces, List.length_append]
    exact Nat.lt_add_of_pos_right (List.length_pos_iff.mpr hne)
  | glued hmode =>
    rw [hbody] at hmode
    cases hmode

/-- A next step ends the stream, gives the one token for the end, or moves on. -/
theorem Matches.progress {m : CheckedLexer} {l : Lexer} (h : Matches m l) :
    m.next? = some none ∨ ∃ token after, m.next? = some (some (token, after)) ∧
      (token.kind = .eof ∧ after.next? = some none ∨ token.kind ≠ .eof ∧ m.pos < after.pos) := by
  have hstep := h.steps
  split at hstep
  · exact Or.inl hstep
  · obtain ⟨r, hr, after, rfl, -, -, hprogress⟩ := hstep
    refine Or.inr ⟨_, after, hr, hprogress.imp (fun h => ⟨h.1, ?_⟩) id⟩
    rw [next?, h.2]

end CheckedLexer

/-- No check fails. On every script the run of the lexer over offsets ends with the tokens of the
script. In each state that it reaches, the offset is on a character boundary, a body is entered
only with pieces ahead, and the next step ends the stream, gives the one token for the end, or moves
the offset on. The counts of braces in a reference body and in a written body never fall below
nothing, whatever the tokens and the body are. -/
theorem checks_pass :
    (∀ source : Text,
      (CheckedLexer.ofText source).tokens? = some (Token.ofText source) ∧
      ∀ m, CheckedLexer.Reaches source m →
        (∃ passed rest, source = passed ++ rest ∧ Text.byteLength passed = m.pos) ∧
        (∀ depth, m.mode = .body depth → m.cursor < m.raw.length) ∧
        (m.next? = some none ∨ ∃ token after, m.next? = some (some (token, after)) ∧
          (token.kind = .eof ∧ after.next? = some none ∨
            token.kind ≠ .eof ∧ m.pos < after.pos))) ∧
    (∀ tokens, Item.splitBraced? 1 tokens = some (Item.splitBraced 1 tokens)) ∧
    (∀ body, closesFrom? 1 body = some (closesCleanly body)) := by
  refine ⟨fun source => ⟨(CheckedLexer.matches_ofText source).tokens?_eq, fun m h => ?_⟩,
    Item.splitBraced?_eq (Nat.le_refl 1), closesFrom?_eq (Nat.le_refl 1)⟩
  obtain ⟨hsource, l, hmatches⟩ := h.exists_matches
  rw [← hsource]
  exact ⟨hmatches.exists_passed, fun _ => hmatches.cursor_lt, hmatches.progress⟩

/-- A body is reached with pieces ahead. -/
theorem checks_pass_body : ∃ m, CheckedLexer.Reaches "@\x7b\x7d".toList m ∧
    m.mode = .body 1 ∧ m.cursor < m.raw.length := by
  obtain ⟨raw, hraw⟩ : ∃ raw : List Lexeme,
      raw = [⟨.at, 0, 1⟩, ⟨.leftBrace, 1, 2⟩, ⟨.rightBrace, 2, 3⟩] := ⟨_, rfl⟩
  have hfirst : (CheckedLexer.ofText "@\x7b\x7d".toList).next? =
      some (some (⟨.referenceStart, ['@'], ⟨1, 1⟩⟩,
        ⟨"@\x7b\x7d".toList, raw, 1, 1, ⟨1, 2⟩, false, .afterAt⟩)) := by
    subst hraw
    cbv
  have hsecond : (CheckedLexer.next?
      ⟨"@\x7b\x7d".toList, raw, 1, 1, ⟨1, 2⟩, false, .afterAt⟩) =
      some (some (⟨.braceOpen, ['{'], ⟨1, 2⟩⟩,
        ⟨"@\x7b\x7d".toList, raw, 2, 2, ⟨1, 3⟩, false, .body 1⟩)) := by
    subst hraw
    cbv
  have hreach := CheckedLexer.Reaches.next (.next .start hfirst) hsecond
  exact ⟨_, hreach, rfl, ((checks_pass.1 _).2 _ hreach).2.1 1 rfl⟩

end PromptScript
