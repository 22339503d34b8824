import PromptScript.Document.Draft
import PromptScript.Proofs.Lexing.Order

/-!
# The automaton of blocks

Blocks are a matter of keywords alone. The automaton is either idle or inside one block; it reads
headers, the keywords of statements and the end of a script, and says which openings it accepts,
which blocks it emits and what it reports. Every opening that it accepts it emits once, and what it
emits is never nested.
-/

namespace PromptScript

/-- The variant of a block. -/
inductive BlockVariant where
  /-- Text for when a condition holds, and for when it does not. -/
  | conditional
  /-- Text for each item of a collection. -/
  | forEach
  /-- Text for when something fails. -/
  | onError
  deriving DecidableEq, Repr

namespace BlockAutomaton

/-- The block that the automaton is inside of. -/
structure Pending where
  /-- The keyword that opened it. -/
  opener : Token
  /-- Its variant. -/
  variant : BlockVariant
  /-- Whether its alternative has begun. -/
  alternative : Bool
  deriving DecidableEq, Repr

/-- The automaton is idle, or inside a block. -/
abbrev State := Option Pending

/-- A block that is emitted: what it was at its end, and the token that ended it. -/
structure Extent where
  /-- The block. -/
  pending : Pending
  /-- The token that ended it. -/
  closer : Token
  deriving DecidableEq, Repr

/-- What the automaton says when it reads a keyword. -/
inductive Output where
  /-- The keyword opens a block. -/
  | accept (opener : Token)
  /-- A block is complete. -/
  | emit (extent : Extent)
  /-- Something is wrong. -/
  | report (x : Diagnostic)
  deriving DecidableEq, Repr

namespace State

/-- IF, FOR EACH and ON ERROR open a block, but none inside another. -/
def opens (s : State) (t : Token) (variant : BlockVariant) : State × List Output :=
  match s with
  | none => (some ⟨t, variant, false⟩, [.accept t])
  | some p => (some p, [.report (Document.Problem.nestedBlock.diagnostic t.span)])

/-- ELSE begins the alternative of a condition, once. -/
def otherwise (s : State) (t : Token) : State × List Output :=
  match s with
  | some ⟨opener, .conditional, false⟩ => (some ⟨opener, .conditional, true⟩, [])
  | _ => (s, [.report (Document.Problem.strayElse.diagnostic t.span)])

/-- END ends a block. -/
def finish (s : State) (t : Token) : State × List Output :=
  match s with
  | some p => (none, [.emit ⟨p, t⟩])
  | none => (none, [.report (Document.Problem.strayEnd.diagnostic t.span)])

/-- A header and the end of a script end a block too, which is then reported where it was
opened. -/
def interrupt (s : State) (t : Token) : State × List Output :=
  match s with
  | some p =>
    (none, [.report (Document.Problem.unclosedBlock.diagnostic p.opener.span), .emit ⟨p, t⟩])
  | none => (none, [])

/-- A call has nothing to do with blocks. -/
def perform (s : State) (t : Token) : Draft.StatementWord → State × List Output
  | .conditional => s.opens t .conditional
  | .forEach => s.opens t .forEach
  | .onError => s.opens t .onError
  | .otherwise => s.otherwise t
  | .finish => s.finish t
  | .callApi => (s, [])

/-- The automaton past a token, and what it says. -/
def step (s : State) (t : Token) : State × List Output :=
  match t.kind with
  | .sectionKeyword | .eof => s.interrupt t
  | .statementKeyword =>
    match Draft.statementWords.lookup (Text.words t.text) with
    | some word => s.perform t word
    | none => (s, [])
  | _ => (s, [])

/-- The automaton past tokens in a row. -/
def past (s : State) (tokens : List Token) : State :=
  tokens.foldl (fun s t => (s.step t).1) s

/-- What the automaton says to tokens in a row. -/
def run (s : State) : List Token → List Output
  | [] => []
  | t :: tokens => (s.step t).2 ++ run (s.step t).1 tokens

end State

/-- The keywords that are accepted as openings. -/
def accepted (outputs : List Output) : List Token :=
  outputs.filterMap fun
    | .accept opener => some opener
    | _ => none

/-- The blocks that are emitted. -/
def emitted (outputs : List Output) : List Extent :=
  outputs.filterMap fun
    | .emit extent => some extent
    | _ => none

/-- What is reported. -/
def reported (outputs : List Output) : List Diagnostic :=
  outputs.filterMap fun
    | .report x => some x
    | _ => none

/-- The accepted keywords of outputs in a row are those of the one part and then those of the other.
-/
@[simp] theorem accepted_append (as bs : List Output) :
    accepted (as ++ bs) = accepted as ++ accepted bs :=
  List.filterMap_append

/-- The emitted blocks of outputs in a row are those of the one part and then those of the other. -/
@[simp] theorem emitted_append (as bs : List Output) :
    emitted (as ++ bs) = emitted as ++ emitted bs :=
  List.filterMap_append

/-- The reports of outputs in a row are those of the one part and then those of the other. -/
@[simp] theorem reported_append (as bs : List Output) :
    reported (as ++ bs) = reported as ++ reported bs :=
  List.filterMap_append

namespace State

/-- Tokens in a row move the automaton one part after the other. -/
theorem past_append (s : State) (as bs : List Token) :
    s.past (as ++ bs) = (s.past as).past bs :=
  List.foldl_append

/-- What is said to tokens in a row is said to the one part, and to the other from where that one
led. -/
theorem run_append (s : State) (as bs : List Token) :
    s.run (as ++ bs) = s.run as ++ (s.past as).run bs := by
  induction as generalizing s with
  | nil => rfl
  | cons t as ih => simp only [List.cons_append, run, ih, List.append_assoc, past, List.foldl_cons]

/-- A run over one token is a step. -/
theorem past_run_singleton (s : State) (t : Token) : (s.past [t], s.run [t]) = s.step t := by
  simp [past, run]

/-- What a token can do to the state, with what is said of it. -/
inductive Move (t : Token) : State → State × List Output → Prop
  | stay {s : State} {outputs : List Output} (haccepted : accepted outputs = [])
      (hemitted : emitted outputs = []) : Move t s (s, outputs)
  | accept {variant : BlockVariant} : Move t none (some ⟨t, variant, false⟩, [.accept t])
  | turn {p q : Pending} (hopener : q.opener = p.opener) : Move t (some p) (some q, [])
  | emit {p : Pending} {outputs : List Output} (haccepted : accepted outputs = [])
      (hemitted : emitted outputs = [⟨p, t⟩]) : Move t (some p) (none, outputs)

/-- An opening accepts the keyword where the automaton is idle and reports it elsewhere. -/
theorem move_opens (s : State) (t : Token) (variant : BlockVariant) :
    Move t s (s.opens t variant) := by
  cases s with
  | none => exact .accept
  | some p => exact .stay rfl rfl

/-- ELSE only ever begins an alternative or is reported. -/
theorem move_otherwise (s : State) (t : Token) : Move t s (s.otherwise t) := by
  unfold otherwise
  split
  · exact .turn rfl
  · exact .stay rfl rfl

/-- END emits the block that the automaton is inside of, or is reported. -/
theorem move_finish (s : State) (t : Token) : Move t s (s.finish t) := by
  cases s with
  | none => exact .stay rfl rfl
  | some p => exact .emit rfl rfl

/-- An interruption emits a block with its report, or does nothing. -/
theorem move_interrupt (s : State) (t : Token) : Move t s (s.interrupt t) := by
  cases s with
  | none => exact .stay rfl rfl
  | some p => exact .emit rfl rfl

/-- Each step of the automaton is one of the moves. -/
theorem move_step (s : State) (t : Token) : Move t s (s.step t) := by
  unfold step
  split
  · exact s.move_interrupt t
  · exact s.move_interrupt t
  · split
    · rename_i word _
      cases word with
      | conditional | forEach | onError => exact s.move_opens t _
      | otherwise => exact s.move_otherwise t
      | finish => exact s.move_finish t
      | callApi => exact .stay rfl rfl
    · exact .stay rfl rfl
  · exact .stay rfl rfl

/-- The keyword that opened the block that the automaton is inside of. -/
def openers (s : State) : List Token :=
  s.toList.map (·.opener)

/-- Every opening that is accepted is emitted once and in its order, unless it is still pending. -/
theorem openers_append_accepted_run (s : State) (tokens : List Token) :
    s.openers ++ accepted (s.run tokens) =
      (emitted (s.run tokens)).map (·.pending.opener) ++ (s.past tokens).openers := by
  induction tokens generalizing s with
  | nil => simp [run, past, accepted, emitted]
  | cons t tokens ih =>
    have hstep : s.openers ++ accepted (s.step t).2 =
        (emitted (s.step t).2).map (·.pending.opener) ++ (s.step t).1.openers := by
      have hmove := s.move_step t
      generalize s.step t = moved at hmove ⊢
      cases hmove with
      | stay haccepted hemitted => simp [haccepted, hemitted]
      | accept => rfl
      | turn hopener => simp [openers, hopener, accepted, emitted]
      | emit haccepted hemitted => simp [openers, haccepted, hemitted]
    simp only [run, accepted_append, emitted_append, List.map_append, ← List.append_assoc, hstep]
    rw [List.append_assoc, ih, ← List.append_assoc]
    rfl

/-- Only what is read is accepted. -/
theorem accepted_run_sublist (s : State) (tokens : List Token) :
    (accepted (s.run tokens)).Sublist tokens := by
  induction tokens generalizing s with
  | nil => exact .slnil
  | cons t tokens ih =>
    have hstep : (accepted (s.step t).2).Sublist [t] := by
      have hmove := s.move_step t
      generalize s.step t = moved at hmove ⊢
      cases hmove with
      | stay haccepted | emit haccepted =>
        rw [haccepted]
        exact List.nil_sublist _
      | accept => exact .refl _
      | turn => exact List.nil_sublist _
    rw [run, accepted_append]
    exact hstep.append (ih _)

/-- What is pending was so before, or its opening was read. -/
theorem mem_openers_past {s : State} {tokens : List Token} {opener : Token}
    (h : opener ∈ (s.past tokens).openers) : opener ∈ s.openers ∨ opener ∈ tokens := by
  have hmem : opener ∈ s.openers ++ accepted (s.run tokens) := by
    rw [openers_append_accepted_run]
    exact List.mem_append_right _ h
  exact (List.mem_append.mp hmem).imp_right ((s.accepted_run_sublist tokens).subset ·)

/-- What is emitted was pending, or its opening was read. -/
theorem opener_of_mem_emitted_run {s : State} {tokens : List Token} {x : Extent}
    (h : x ∈ emitted (s.run tokens)) :
    x.pending.opener ∈ s.openers ∨ x.pending.opener ∈ tokens := by
  have hmem : x.pending.opener ∈ s.openers ++ accepted (s.run tokens) := by
    rw [openers_append_accepted_run]
    exact List.mem_append_left _ (List.mem_map_of_mem h)
  exact (List.mem_append.mp hmem).imp_right ((s.accepted_run_sublist tokens).subset ·)

/-- Of tokens that stand one after another, each block that is emitted ends after its opening and
before the next one is opened. -/
theorem pairwise_emitted_run {s : State} {tokens : List Token}
    (horder : tokens.Pairwise fun a b => a.place < b.place)
    (hbefore : ∀ opener ∈ s.openers, ∀ t ∈ tokens, opener.place < t.place) :
    (emitted (s.run tokens)).Pairwise (fun a b => a.closer.place < b.pending.opener.place) ∧
      ∀ x ∈ emitted (s.run tokens), x.pending.opener.place < x.closer.place := by
  induction tokens generalizing s with
  | nil => exact ⟨.nil, fun x hx => absurd hx List.not_mem_nil⟩
  | cons t tokens ih =>
    obtain ⟨hfirst, hrest⟩ := List.pairwise_cons.mp horder
    have hlater : ∀ opener ∈ s.openers, ∀ u ∈ tokens, opener.place < u.place :=
      fun opener ho u hu => hbefore opener ho u (List.mem_cons_of_mem t hu)
    have hmove := s.move_step t
    rw [run, emitted_append]
    generalize s.step t = moved at hmove ⊢
    cases hmove with
    | stay _ hemitted =>
      rw [hemitted]
      exact ih hrest hlater
    | accept =>
      refine ih hrest fun opener ho u hu => ?_
      rw [List.mem_singleton.mp ho]
      exact hfirst u hu
    | turn hopener =>
      refine ih hrest fun opener ho u hu => ?_
      have hsame : opener = _ := (List.mem_singleton.mp ho).trans hopener
      rw [hsame]
      exact hlater _ (List.mem_singleton_self _) u hu
    | @emit p outputs _ hemitted =>
      -- nothing is pending any more, so whatever is emitted later was opened later
      obtain ⟨hpairs, hspans⟩ := ih (s := none) hrest fun opener ho => absurd ho List.not_mem_nil
      have hopener : p.opener.place < t.place :=
        hbefore p.opener (List.mem_singleton_self _) t List.mem_cons_self
      rw [hemitted]
      refine ⟨List.pairwise_cons.mpr ⟨fun x hx => ?_, hpairs⟩,
        List.forall_mem_cons.mpr ⟨hopener, hspans⟩⟩
      rcases opener_of_mem_emitted_run hx with ho | ho
      · exact absurd ho List.not_mem_nil
      · exact hfirst _ ho

/-- At the end of a script nothing is pending. -/
theorem past_append_eof (s : State) (tokens : List Token) {last : Token} (h : last.kind = .eof) :
    s.past (tokens ++ [last]) = none := by
  have hlast (m : State) : (m.step last).1 = none := by
    rw [step, h]
    cases m <;> rfl
  rw [past_append]
  exact hlast _

end State

end BlockAutomaton

end PromptScript
