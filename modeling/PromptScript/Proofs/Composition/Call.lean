import PromptScript.Proofs.Composition.Invisible
import PromptScript.Proofs.Splicing.Indent

/-!
# Calls between the lines of a block

A line that makes a call inside a block adds its call, or the report that it is malformed, and
changes no section and no reference. It changes no block either, but for its indent: the white space
before the call stays in the text of the branch around it.
-/

namespace PromptScript

open BlockAutomaton (Pending State)
open Document (Problem)
open Piece (isHorizontal scan)

/-- A line that makes a call: white space, the keyword and the arguments. -/
def Text.callLine (indent arguments : Text) : Text :=
  indent ++ "CALL API ".toList ++ arguments ++ ['\n']

/-- What a call with its arguments adds to a script: the call, or the report on it. -/
def ApiCall.added (arguments : Text) : List ApiCall × List Diagnostic :=
  match ApiCall.ofText arguments with
  | .ok call => ([call], [])
  | .error problem => ([], [(Problem.malformedCall problem).report])

namespace Text

variable {indent arguments ending : Text}

/-- The line of a call ends with a line break. -/
theorem endsLine_callLine (indent arguments : Text) : endsLine (callLine indent arguments) = true := by
  rw [callLine, endsLine, List.getLast?_concat]
  rfl

/-- A line that makes a call, with or without the line break, is its indent and the statement. -/
theorem phrases_call (hindent : indent.all isHorizontal = true) (harguments : '\n' ∉ arguments)
    (hending : ending = [] ∨ ending = ['\n']) :
    Lexer.Phrases true none (indent ++ "CALL API ".toList ++ arguments ++ ending)
      (Stretch.ofText .text indent ++ [.token .statementKeyword "CALL API".toList,
        .token .text (' ' :: (arguments ++ ending))]) := by
  have hsplit : indent ++ "CALL API ".toList ++ arguments ++ ending =
      indent ++ ("CALL".toList ++ ' ' :: "API".toList ++ ' ' :: (arguments ++ ending)) := by
    simp
  have hsecond : Lexer.secondWord? .callWord = some .apiWord := rfl
  have hstatement := Lexer.statement?_two "CALL".toList "API".toList .callWord
    (by decide) (by decide) hsecond (by decide) (c := ' ') (by decide) (arguments ++ ending)
  have hcut : cutLine (' ' :: (arguments ++ ending)) = (' ' :: (arguments ++ ending), []) := by
    have hline : '\n' ∉ ' ' :: arguments := by simpa using harguments
    have hrest := cutLine_append hline ending
    rcases hending with rfl | rfl <;> exact hrest
  have hcall (before : Option Char) : Lexer.Phrases true before
      ("CALL".toList ++ ' ' :: "API".toList ++ ' ' :: (arguments ++ ending))
      [.token .statementKeyword "CALL API".toList, .token .text (' ' :: (arguments ++ ending))] := by
    have hphrase : Lexer.Phrase true before _ _ _ _ := .statement hstatement
    rw [hcut] at hphrase
    exact .cons hphrase .nil
  rw [hsplit]
  cases indent with
  | nil => exact hcall none
  | cons c indent =>
    have hleads : Lexer.Leads (c :: indent).getLast?
        (scan ("CALL".toList ++ ' ' :: "API".toList ++ ' ' :: (arguments ++ ending))) :=
      Or.inr (Or.inl (Option.isSome_of_eq_some hstatement))
    exact .cons (.indent (List.cons_ne_nil c indent) hindent hleads) (hcall _)

/-- A line that makes a call, with or without the line break, has no errors, and its items are its
indent and the call. -/
theorem items_call (hindent : indent.all isHorizontal = true) (harguments : '\n' ∉ arguments)
    (hending : ending = [] ∨ ending = ['\n']) :
    (∀ t ∈ Token.ofText (indent ++ "CALL API ".toList ++ arguments ++ ending), t.kind ≠ .error) ∧
      Item.IsCallLine (trim arguments) indent
        (Item.ofTokens (Token.ofText (indent ++ "CALL API ".toList ++ arguments ++ ending))) := by
  have hphrases := phrases_call hindent harguments hending
  refine ⟨hphrases.isClosed_iff.mp (by cases indent <;> simp [Stretch.ofText, Lexer.IsClosed]), ?_⟩
  have htokens : Token.ofText (indent ++ "CALL API ".toList ++ arguments ++ ending) = _ :=
    hphrases.tokens .start
  have hcall (p q e : Position) : Item.ofTokens [⟨.statementKeyword, "CALL API".toList, p⟩,
      ⟨.text, ' ' :: (arguments ++ ending), q⟩, ⟨.eof, [], e⟩] =
        [.statement ⟨.statementKeyword, "CALL API".toList, p⟩
          (some ⟨.text, ' ' :: (arguments ++ ending), q⟩)] := by
    have hend : Item.ofTokens [⟨.eof, [], e⟩] = [] := by rw [Item.ofTokens, if_pos rfl]
    have hitems : Item.ofTokens (⟨.statementKeyword, "CALL API".toList, p⟩ ::
        (Option.toList (some ⟨.text, ' ' :: (arguments ++ ending), q⟩) ++ [⟨.eof, [], e⟩])) = _ :=
      Item.ofTokens_statement rfl (by simp) (by simp)
    rwa [hend] at hitems
  have htrim : trim (' ' :: (arguments ++ ending)) = trim arguments := by
    have hblank : isBlank ending = true := by rcases hending with rfl | rfl <;> decide
    exact trim_append_append (a := [' ']) (by decide) hblank arguments
  rw [htokens]
  cases indent with
  | nil =>
    simp only [Stretch.ofText, List.isEmpty_nil, if_true, List.nil_append, Stretch.tokens,
      List.cons_append]
    rw [hcall]
    exact .plain rfl htrim
  | cons c indent =>
    simp only [Stretch.ofText, List.isEmpty_cons, Bool.false_eq_true, if_false, Stretch.tokens,
      List.cons_append, List.nil_append]
    rw [Item.ofTokens_text rfl, hcall]
    exact .indented (t := ⟨.text, c :: indent, .start⟩) rfl htrim

end Text

/-- White space around the arguments of a call makes no difference to what it adds. -/
theorem ApiCall.added_trim (arguments : Text) : added (Text.trim arguments) = added arguments := by
  rw [added, ofText_trim, added]

namespace Item

variable {arguments indent : Text} {items : List Item}

/-- The calls that an item makes. -/
def calls (item : Item) : List ApiCall :=
  (Outline.empty.apply item).apiCalls

/-- An item makes the same calls further down. -/
theorem calls_down (n : Nat) (item : Item) : (item.down n).calls = item.calls := by
  rw [calls, down_eq_map, Outline.apply_map (Token.onlyMoves_down n), calls]

/-- A fragment of text makes no call. -/
theorem calls_text (t : Token) : (text t).calls = [] := by
  simp only [calls, Outline.apply, Outline.text]
  split
  · rfl
  · rfl

/-- A call adds itself if it is well formed. -/
theorem calls_of_word? {call : Item} (hword : call.word? = some .callApi) :
    call.calls = (ApiCall.added call.arguments).1 := by
  cases call with
  | statement keyword rest =>
    rw [calls, Outline.apply_statement, hword]
    simp only [Outline.perform, Outline.callApi, ApiCall.added]
    cases ApiCall.ofText (statement keyword rest).arguments <;> rfl
  | _ => cases hword

/-- A call is reported if it is malformed, wherever it stands. -/
theorem problems_of_word? {call : Item} (hword : call.word? = some .callApi) (s : Standing) :
    (call.problems s).map Problem.report = (ApiCall.added call.arguments).2 ∧ call.past s = s := by
  cases call with
  | statement keyword rest =>
    have hlookup : Draft.statementWords.lookup (Text.words keyword.text) = some .callApi := hword
    simp only [problems, past, hlookup, Standing.problems, Standing.past, ApiCall.added, and_true]
    have harguments : (rest.map fun line => Text.trim line.text).getD [] =
        (statement keyword rest).arguments := rfl
    rw [harguments]
    cases ApiCall.ofText (statement keyword rest).arguments <;> rfl
  | _ => cases hword

/-- The items of the line of a call make the call that it adds. -/
theorem IsCallLine.calls (h : IsCallLine arguments indent items) :
    items.flatMap Item.calls = (ApiCall.added arguments).1 := by
  cases h with
  | plain hword harguments => simp [calls_of_word? hword, harguments]
  | indented hword harguments => simp [calls_of_word? hword, harguments, calls_text]

/-- The line of a call has the problem that it adds, and what comes after the line has its own. -/
theorem IsCallLine.allProblems (h : IsCallLine arguments indent items) (s : Standing)
    (more : List Item) : (Item.allProblems s (items ++ more)).map Problem.report =
      (ApiCall.added arguments).2 ++ (Item.allProblems s more).map Problem.report := by
  cases h with
  | plain hword harguments =>
    obtain ⟨hproblems, hpast⟩ := problems_of_word? hword s
    simp [Item.allProblems, hproblems, hpast, harguments]
  | @indented t _ hword harguments =>
    obtain ⟨hproblems, hpast⟩ := problems_of_word? hword s
    have htext : (text t).problems s = [] ∧ (text t).past s = s := ⟨rfl, rfl⟩
    simp [Item.allProblems, htext, hproblems, hpast, harguments]

/-- The line of a call holds no reference. -/
theorem IsCallLine.references (h : IsCallLine arguments indent items) :
    items.filterMap reference? = [] :=
  List.filterMap_eq_nil_iff.mpr fun item hitem => by
    obtain ⟨t, rfl⟩ | ⟨keyword, rest, rfl, -⟩ := h.exists_statement hitem <;> rfl

/-- The line of a call begins no section. -/
theorem IsCallLine.sectionRegions_append (h : IsCallLine arguments indent items) (more : List Item) :
    sectionRegions (items ++ more) = sectionRegions more := by
  have hcall {call : Item} (hword : call.word? = some .callApi) :
      sectionRegions (call :: more) = sectionRegions more := by
    cases call with
    | statement => rfl
    | _ => cases hword
  cases h with
  | plain hword => exact hcall hword
  | indented hword => exact hcall hword

/-- The text of a section is the same further down. -/
theorem sectionBody_down (n : Nat) (items : List Item) :
    sectionBody (items.map (down n)) = sectionBody items := by
  have hstep (c : Collecting) (item : Item) : c.step (item.down n) = c.step item := by
    cases item with
    | reference start name target tail =>
      have htail : (tail.down n).endsLine = tail.endsLine := by
        cases tail with
        | unterminated mark recovered =>
          simp only [Tail.down, Tail.endsLine, List.getLast?_map, Option.any_map]
          rfl
        | _ => rfl
      simp only [Collecting.step, Collecting.isBareAfter, down, loose, htail]
      rfl
    | _ => rfl
  rw [sectionBody, Collecting.run, List.foldl_map]
  simp only [hstep]
  rfl

/-- The texts of sections do not depend on where they stand. -/
theorem sectionRegions_down (n : Nat) (items : List Item) :
    (sectionRegions (items.map (down n))).map (fun region => (region.1, sectionBody region.2)) =
      (sectionRegions items).map fun region => (region.1, sectionBody region.2) := by
  have hends (item : Item) : (item.down n).endsSection = item.endsSection := by
    cases item <;> rfl
  induction items with
  | nil => rfl
  | cons item items ih =>
    cases item with
    | header t kind =>
      have hregion : (items.map (down n)).takeWhile (!·.endsSection) =
          (items.takeWhile (!·.endsSection)).map (down n) := by
        rw [List.takeWhile_map]
        simp only [Function.comp_def, hends]
      simp only [List.map_cons, down, sectionRegions, hregion, sectionBody_down, ih]
    | _ => exact ih

end Item

/-- The calls of a script are those of its items. -/
theorem Parsed.calls_ofText (source : Text) :
    (ofText source).document.apiCalls.map (·.call) =
      (Item.ofTokens (Token.ofText source)).flatMap Item.calls := by
  have hrecord := congrArg Record.apiCalls (record_ofText source)
  have hcalls : (ofText source).document.apiCalls = _ := hrecord.trans (Item.apiCalls_records _)
  rw [hcalls, List.map_flatMap]
  refine List.flatMap_congr fun item hitem => ?_
  have hknown := Item.isKnown_of_grammar (Token.grammar_ofText source) item hitem
  exact congrArg Outline.apiCalls (Draft.outline_apply Draft.empty hknown)

/-- How a block changes with an indent on a line of a branch, by the block as it is open before that
line and by the items of the branch after it. -/
structure Block.GainsIndent (indent : Text) (alternative : Bool) (rest : List Item)
    (opened plain called : Block) : Prop where
  /-- Its opening stays. -/
  opening : called.opening = plain.opening
  /-- Its other branch stays. -/
  other : called.branchText (!alternative) = plain.branchText (!alternative)
  /-- It stays as it is exactly if there is no indent, or no text before it or after it in the branch,
  or the line that the text is at is dropped with one of references. -/
  same_iff : called = plain ↔ indent = [] ∨ opened.branchText alternative = [] ∨
    plain.branchText alternative = opened.branchText alternative ∨
      (Item.isForgotten rest || Item.vanishes false rest) = true
  /-- Otherwise the indent stays between the text before it and the text after it. -/
  text : called ≠ plain → ∃ u v, Text.trim u = opened.branchText alternative ∧
    plain.branchText alternative = u ++ v ∧ called.branchText alternative = u ++ indent ++ v

namespace Item

variable {arguments indent : Text} {items lead more : List Item} {variant : BlockVariant}
  {alternative : Bool}

/-- The block whose parts are those of a region stands where the region does among the others. -/
theorem exists_of_parts {blocks : List Block} {done others : List BlockRegion} {region : BlockRegion}
    (h : blocks.map Block.parts = (done ++ region :: others).map BlockRegion.parts) :
    ∃ ds b os, blocks = ds ++ b :: os ∧ ds.map Block.parts = done.map BlockRegion.parts ∧
      b.parts = region.parts ∧ os.map Block.parts = others.map BlockRegion.parts := by
  rw [List.map_append, List.map_eq_append_iff] at h
  obtain ⟨ds, rest, rfl, hds, hrest⟩ := h
  obtain ⟨b, os, rfl, hb, hos⟩ := List.map_eq_cons_iff.mp hrest
  exact ⟨ds, b, os, rfl, hds, hb, hos⟩

/-- The block that is open past items gains at most the indent of a call line after them, and all
other blocks stay. -/
theorem IsCallLine.gainsIndent (h : IsCallLine arguments indent items)
    (hblank : Text.isBlank indent = true) (hends : Text.endsLine indent = false)
    (hpast : pastAll none lead = some (variant, alternative))
    (hlast : ∀ item ∈ lead.getLast?, (∃ t, item = .text t ∧ t.endsLine = true) ∨
      ∃ keyword rest, item = .statement keyword rest)
    {before without within : List Block}
    (hbefore : before.map Block.parts = (blockRegions lead).map BlockRegion.parts)
    (hwithout : without.map Block.parts = (blockRegions (lead ++ more)).map BlockRegion.parts)
    (hwithin : within.map Block.parts = (blockRegions (lead ++ (items ++ more))).map BlockRegion.parts) :
    ∃ finished opened plain called others, before = finished ++ [opened] ∧
      without = finished ++ plain :: others ∧ within = finished ++ called :: others ∧
        Block.GainsIndent indent alternative
          (inBranch (variant == .conditional && !alternative) more) opened plain called := by
  obtain ⟨done, region, hvariant, halternative, hsuffix, hregions⟩ := blockRegions_append hpast
  have hhas : region.hasOtherwise = alternative := by
    rw [BlockRegion.hasOtherwise, hvariant, halternative]
  have hawaits : region.awaitsOtherwise = (variant == .conditional && !alternative) := by
    rw [BlockRegion.awaitsOtherwise, hvariant, hhas]
  have hstay : ∀ item ∈ items, (!item.endsBlock) = true := fun item hitem => by
    simp [h.stays.1 item hitem]
  have hnone : blockRegions [] = [] := by rw [blockRegions]
  have hfirst := hregions []
  have hlong := hregions (items ++ more)
  rw [List.append_nil, List.takeWhile_nil, List.dropWhile_nil, hnone] at hfirst
  rw [List.takeWhile_append_of_pos hstay, List.dropWhile_append_of_pos hstay] at hlong
  rw [hfirst] at hbefore
  rw [hregions more] at hwithout
  rw [hlong] at hwithin
  obtain ⟨finished, opened, nothing, rfl, hfinished, hopened, hnothing⟩ := exists_of_parts hbefore
  obtain ⟨front, plain, others, rfl, hfront, hplain, hothers⟩ := exists_of_parts hwithout
  obtain ⟨start, called, tail, rfl, hstart, hcalled, htail⟩ := exists_of_parts hwithin
  have hinjective := List.map_injective_iff.mpr Block.parts_injective
  obtain rfl := hinjective (hfront.trans hfinished.symm)
  obtain rfl := hinjective (hstart.trans hfinished.symm)
  obtain rfl := hinjective (htail.trans hothers.symm)
  obtain rfl : nothing = [] := List.map_eq_nil_iff.mp hnothing
  refine ⟨_, opened, plain, called, _, rfl, rfl, rfl, ?_⟩
  obtain ⟨-, hopenedText⟩ := BlockRegion.branchText_of_parts hopened
  obtain ⟨hplainOpening, hplainText⟩ := BlockRegion.branchText_of_parts hplain
  obtain ⟨hcalledOpening, hcalledText⟩ := BlockRegion.branchText_of_parts hcalled
  have hopening : called.opening = plain.opening := hcalledOpening.trans hplainOpening.symm
  have hother : called.branchText (!alternative) = plain.branchText (!alternative) := by
    rw [hcalledText, hplainText, ← hhas]
    exact region.branchText_append_other _ h.stays.2
  have hsame : called = plain ↔ called.branchText alternative = plain.branchText alternative := by
    refine ⟨fun heq => by rw [heq], fun heq => Block.ext_branch hopening fun other => ?_⟩
    by_cases hbranch : other = alternative
    · rw [hbranch, heq]
    · rw [Bool.eq_not.mpr hbranch, hother]
  obtain ⟨hiff, htext⟩ := region.branchText_callLine h hblank hends
    (fun item hitem => hlast item (by
      obtain ⟨init, hinit⟩ := hsuffix
      rw [← hinit, List.getLast?_append, hitem]
      rfl)) _ ((hopenedText _).trans (by rw [hhas])) ((hplainText _).trans (by rw [hhas]))
    ((hcalledText alternative).trans (by rw [hhas])) rfl
  rw [hawaits] at hiff
  exact ⟨hopening, hother, hsame.trans hiff, fun hne => htext (mt hsame.mpr hne)⟩

end Item

namespace Parsed

variable {pre post line arguments indent : Text} {items : List Item} {variant : BlockVariant}
  {alternative : Bool}

/-- The standing past a script is that of the block it leaves open. -/
theorem pastAll_eq (source : Text) : Item.pastAll none (Item.ofTokens (Token.ofText source)) =
    ((Draft.empty.applyAll (Item.ofTokens (Token.ofText source))).openBlock.map OpenBlock.view).map
      Prod.snd := by
  have hstanding : _ = Item.pastAll none (Item.ofTokens (Token.ofText source)) :=
    Outline.empty.standing_applyAll (Item.ofTokens (Token.ofText source))
  have houtline : _ = Outline.empty.applyAll (Item.ofTokens (Token.ofText source)) :=
    Draft.outline_applyAll Draft.empty (Item.isKnown_of_grammar (Token.grammar_ofText source))
  rw [← hstanding, ← houtline, Outline.standing, Draft.outline_openBlock, Option.map_map,
    Option.map_map]
  rfl

/-- The items of a script with a line between its lines. -/
theorem items_insert (hpre : Text.endsLine pre = true) (hclosed : ∀ t ∈ Token.ofText pre, t.kind ≠ .error)
    (hline : Text.endsLine line = true) (hlineClosed : ∀ t ∈ Token.ofText line, t.kind ≠ .error)
    (post : Text) : ∃ n m, Item.ofTokens (Token.ofText (pre ++ post)) =
        Item.ofTokens (Token.ofText pre) ++ (Item.ofTokens (Token.ofText post)).map (Item.down n) ∧
      Item.ofTokens (Token.ofText (pre ++ line ++ post)) =
        Item.ofTokens (Token.ofText pre) ++ (Item.ofTokens (Token.ofText line) ++
          (Item.ofTokens (Token.ofText post)).map (Item.down m)).map (Item.down n) := by
  refine ⟨pre.count '\n', line.count '\n', Item.ofTokens_append post hpre hclosed, ?_⟩
  rw [List.append_assoc, Item.ofTokens_append _ hpre hclosed,
    Item.ofTokens_append post hline hlineClosed]

variable (hpre : Text.endsLine pre = true) (hclosed : ∀ t ∈ Token.ofText pre, t.kind ≠ .error)
  (hline : Text.endsLine line = true) (hlineClosed : ∀ t ∈ Token.ofText line, t.kind ≠ .error)
  (hitems : Item.IsCallLine arguments indent (Item.ofTokens (Token.ofText line)))
include hpre hclosed hline hlineClosed hitems

/-- Inside a block a call line changes no section. -/
theorem sectionTexts_insert
    (hpast : Item.pastAll none (Item.ofTokens (Token.ofText pre)) = some (variant, alternative)) :
    (ofText (pre ++ line ++ post)).document.sectionTexts =
      (ofText (pre ++ post)).document.sectionTexts := by
  have hsections (source : Text) : (ofText source).document.sectionTexts = _ :=
    (sections_ofText source).symm
  have hinside : (Item.pastAll none (Item.ofTokens (Token.ofText pre))).isSome = true := by
    rw [hpast]
    rfl
  have hcut (n : Nat) (more : List Item) := congrArg
    (List.map fun region : SectionKind × List Item => (region.1, Item.sectionBody region.2))
    (Item.sectionRegions_append hinside (more.map (Item.down n)))
  simp only [List.map_append, Item.sectionRegions_down] at hcut
  obtain ⟨n, m, hwithout, hwithin⟩ := items_insert hpre hclosed hline hlineClosed post
  rw [hsections, hsections, hwithout, hwithin, hcut, hcut, hitems.sectionRegions_append,
    Item.sectionRegions_down]

/-- A call line changes no reference. -/
theorem references_insert :
    (ofText (pre ++ line ++ post)).document.references.map Reference.lower =
      (ofText (pre ++ post)).document.references.map Reference.lower := by
  have hnone : (Lexer.ofText line).references = [] := hitems.references
  have hread (source : Text) : (ofText source).document.references.map Reference.lower =
      (Outline.empty.read (.ofText source)).references := by
    rw [references_ofText, Lexer.references_read]
    rfl
  rw [hread, hread, List.append_assoc, Outline.read_append _ (Or.inr hpre) hclosed,
    Outline.read_append _ (Or.inr hline) hlineClosed, Outline.read_append _ (Or.inr hpre) hclosed,
    Lexer.references_read, Lexer.references_read _ (.ofText line), hnone, List.append_nil,
    Lexer.references_read _ (.ofText post)]

variable (post) in
/-- A call line adds its call between those before it and those after it. -/
theorem calls_insert : ∃ back,
    (ofText (pre ++ post)).document.apiCalls.map (·.call) =
      (ofText pre).document.apiCalls.map (·.call) ++ back ∧
    (ofText (pre ++ line ++ post)).document.apiCalls.map (·.call) =
      (ofText pre).document.apiCalls.map (·.call) ++ ((ApiCall.added arguments).1 ++ back) := by
  obtain ⟨n, m, hwithout, hwithin⟩ := items_insert hpre hclosed hline hlineClosed post
  refine ⟨(Item.ofTokens (Token.ofText post)).flatMap Item.calls, ?_, ?_⟩
  · rw [calls_ofText, calls_ofText, hwithout]
    simp [List.flatMap_map, Item.calls_down]
  · rw [calls_ofText, calls_ofText, hwithin]
    simp [List.flatMap_map, Item.calls_down, hitems.calls]

variable (post) in
/-- A call line inside a block adds the report on its call between those before it and those after
it. -/
theorem reports_insert
    (hpast : Item.pastAll none (Item.ofTokens (Token.ofText pre)) = some (variant, alternative)) :
    ∃ front back, (ofText pre).diagnostics.map Diagnostic.unplaced =
        front ++ [Problem.unclosedBlock.report] ∧
      (ofText (pre ++ post)).diagnostics.map Diagnostic.unplaced = front ++ back ∧
      (ofText (pre ++ line ++ post)).diagnostics.map Diagnostic.unplaced =
        front ++ ((ApiCall.added arguments).2 ++ back) := by
  have hdown (s : Standing) (n : Nat) (items : List Item) :
      Item.allProblems s (items.map (Item.down n)) = Item.allProblems s items := by
    rw [Item.down_eq_map, Item.allProblems_map (Token.onlyMoves_down n)]
  obtain ⟨n, m, hwithout, hwithin⟩ := items_insert hpre hclosed hline hlineClosed post
  obtain ⟨front, hfront⟩ := Item.exists_allProblems_append none (Item.ofTokens (Token.ofText pre))
  rw [hpast] at hfront
  have hbefore := hfront []
  rw [List.append_nil] at hbefore
  refine ⟨front.map Problem.report, (Item.allProblems (some (variant, alternative))
    (Item.ofTokens (Token.ofText post))).map Problem.report, ?_, ?_, ?_⟩
  · rw [reports_ofText, hbefore, List.map_append]
    rfl
  · rw [reports_ofText, hwithout, hfront, hdown, List.map_append]
  · rw [reports_ofText, hwithin, hfront, hdown, List.map_append, hitems.allProblems, hdown]

/-- A call line inside a block leaves all blocks as they are but for its indent. -/
theorem blocks_insert (hblank : Text.isBlank indent = true) (hends : Text.endsLine indent = false)
    (hpast : Item.pastAll none (Item.ofTokens (Token.ofText pre)) = some (variant, alternative)) :
    ∃ finished opened plain called others,
      (ofText pre).document.blocks.map (·.block) = finished ++ [opened] ∧
      (ofText (pre ++ post)).document.blocks.map (·.block) = finished ++ plain :: others ∧
      (ofText (pre ++ line ++ post)).document.blocks.map (·.block) = finished ++ called :: others ∧
      Block.GainsIndent indent alternative
        (Item.inBranch (variant == .conditional && !alternative) (Item.ofTokens (Token.ofText post)))
        opened plain called := by
  have hknown (source : Text) := Item.isKnown_of_grammar (Token.grammar_ofText source)
  have hblocks (source : Text) : (ofText source).document.blocks.map (·.block) =
      (Outline.empty.read (.ofText source)).close.blocks :=
    congrArg Outline.blocks (outline_ofText source)
  have hparts {items : List Item} (h : ∀ item ∈ items, item.IsKnown) :
      (Outline.empty.applyAll items).close.blocks.map Block.parts =
        (Item.blockRegions items).map BlockRegion.parts :=
    Outline.blocks_close h rfl
  have hlast : ∀ item ∈ (Item.ofTokens (Token.ofText pre)).getLast?,
      (∃ t, item = .text t ∧ t.endsLine = true) ∨ ∃ keyword rest, item = .statement keyword rest := by
    intro item hitem
    obtain ⟨t, -, hends, rfl | ⟨keyword, rfl⟩⟩ := Item.last_of_endsLine hpre hclosed item hitem
    · exact Or.inl ⟨t, rfl, hends⟩
    · exact Or.inr ⟨keyword, _, rfl⟩
  have hwithout : Outline.empty.read (.ofText (pre ++ post)) = Outline.empty.applyAll
      (Item.ofTokens (Token.ofText pre) ++ Item.ofTokens (Token.ofText post)) := by
    rw [Outline.read_append _ (Or.inr hpre) hclosed, Outline.applyAll_append]
    rfl
  have hwithin : Outline.empty.read (.ofText (pre ++ line ++ post)) = Outline.empty.applyAll
      (Item.ofTokens (Token.ofText pre) ++
        (Item.ofTokens (Token.ofText line) ++ Item.ofTokens (Token.ofText post))) := by
    rw [List.append_assoc, Outline.read_append _ (Or.inr hpre) hclosed,
      Outline.read_append _ (Or.inr hline) hlineClosed, Outline.applyAll_append,
      Outline.applyAll_append]
    rfl
  refine hitems.gainsIndent hblank hends hpast hlast ?_ ?_ ?_
  · rw [hblocks]
    exact hparts (hknown pre)
  · rw [hblocks, hwithout]
    exact hparts (List.forall_mem_append.mpr ⟨hknown pre, hknown post⟩)
  · rw [hblocks, hwithin]
    exact hparts (List.forall_mem_append.mpr
      ⟨hknown pre, List.forall_mem_append.mpr ⟨hknown line, hknown post⟩⟩)

end Parsed

/-- A call line inside a block makes no difference to the text around it but for its indent. Between
lines of a script without errors, outside the bodies of references and inside a block, it adds its
call or the report that it is malformed; it changes no section, no reference and no other block, and
in the block around it only the text of the branch that it stands in. That changes exactly if the
line has an indent, there is text before it and after it in the branch, and the line that the text
is at is not dropped with one of references; then the indent stays between the two texts. -/
theorem call_line_in_block {pre post indent arguments : Text} {p : Pending}
    (hpre : pre = [] ∨ Text.endsLine pre = true)
    (hclosed : ∀ t ∈ Token.ofText (pre ++ post), t.kind ≠ .error)
    (hcut : ¬Token.InBody (Token.before (.after pre) (Token.ofText (pre ++ post))))
    (hopen : State.past none
      ((Token.before (.after pre) (Token.ofText (pre ++ post))).filter Token.isBlockKeyword) = some p)
    (hindent : indent.all isHorizontal = true) (harguments : '\n' ∉ arguments) :
    let before := Parsed.ofText pre
    let without := Parsed.ofText (pre ++ post)
    let within := Parsed.ofText (pre ++ Text.callLine indent arguments ++ post)
    (within.document.sectionTexts = without.document.sectionTexts ∧
      within.document.references.map Reference.lower =
        without.document.references.map Reference.lower) ∧
    (∃ back, without.document.apiCalls.map (·.call) = before.document.apiCalls.map (·.call) ++ back ∧
      within.document.apiCalls.map (·.call) =
        before.document.apiCalls.map (·.call) ++ ((ApiCall.added arguments).1 ++ back)) ∧
    (∃ front back,
      before.diagnostics.map Diagnostic.unplaced = front ++ [Problem.unclosedBlock.report] ∧
      without.diagnostics.map Diagnostic.unplaced = front ++ back ∧
      within.diagnostics.map Diagnostic.unplaced =
        front ++ ((ApiCall.added arguments).2 ++ back)) ∧
    ∃ finished opened plain called others,
      before.document.blocks.map (·.block) = finished ++ [opened] ∧
      without.document.blocks.map (·.block) = finished ++ plain :: others ∧
      within.document.blocks.map (·.block) = finished ++ called :: others ∧
      Block.GainsIndent indent p.alternative
        (Item.inBranch (p.variant == .conditional && !p.alternative)
          (Item.ofTokens (Token.ofText post))) opened plain called := by
  have hpreClosed := Token.kind_ne_error_of_cut hpre hclosed hcut
  obtain ⟨hlineClosed, hitems⟩ := Text.items_call hindent harguments (Or.inr rfl)
  have hline := Text.endsLine_callLine indent arguments
  have hpast : Item.pastAll none (Item.ofTokens (Token.ofText pre)) =
      some (p.variant, p.alternative) := by
    rw [Parsed.pastAll_eq, Draft.view_before hpre hpreClosed post, hopen]
    rfl
  have hends : Text.endsLine pre = true := by
    refine hpre.resolve_left ?_
    rintro rfl
    have htokens : Token.ofText [] = [⟨.eof, [], .start⟩] := Lexer.tokens_ahead_nil ..
    rw [htokens, Item.ofTokens, if_pos rfl] at hpast
    cases hpast
  have hblank := Piece.isBlank_of_isHorizontal hindent
  have hinner : Text.endsLine indent = false := Bool.eq_false_iff.mpr fun hends =>
    Piece.not_mem_newline_of_isHorizontal hindent (List.mem_of_getLast? (eq_of_beq hends))
  have hadded := ApiCall.added_trim arguments
  have hcalls := Parsed.calls_insert post hends hpreClosed hline hlineClosed hitems
  have hreports := Parsed.reports_insert post hends hpreClosed hline hlineClosed hitems hpast
  rw [hadded] at hcalls hreports
  exact ⟨⟨Parsed.sectionTexts_insert hends hpreClosed hline hlineClosed hitems hpast,
      Parsed.references_insert hends hpreClosed hline hlineClosed hitems⟩, hcalls, hreports,
    Parsed.blocks_insert hends hpreClosed hline hlineClosed hitems hblank hinner hpast⟩

/-- A call with an indent stands between two lines of a block. -/
theorem call_line_in_block_indented : ∃ finished opened plain called others,
    (Parsed.ofText "ON ERROR\na\n".toList).document.blocks.map (·.block) = finished ++ [opened] ∧
      (Parsed.ofText ("ON ERROR\na\n".toList ++ "b\nEND\n".toList)).document.blocks.map (·.block) =
        finished ++ plain :: others ∧
      (Parsed.ofText ("ON ERROR\na\n".toList ++ Text.callLine "  ".toList "s.e".toList ++
        "b\nEND\n".toList)).document.blocks.map (·.block) = finished ++ called :: others ∧
      Block.GainsIndent "  ".toList false
        (Item.inBranch false (Item.ofTokens (Token.ofText "b\nEND\n".toList))) opened plain called :=
  have hopen : State.past none ((Token.before (.after "ON ERROR\na\n".toList) (Token.ofText
      ("ON ERROR\na\n".toList ++ "b\nEND\n".toList))).filter Token.isBlockKeyword) =
        some ⟨⟨.statementKeyword, "ON ERROR".toList, .start⟩, .onError, false⟩ := by
    decide +kernel
  (call_line_in_block (Or.inr (by decide +kernel)) (by decide +kernel) (by decide +kernel) hopen
    (by decide) (by decide)).2.2.2

/-- The indent of a call stays in the text of the block around it. -/
theorem call_line_in_block_fails : ¬∀ (pre post indent arguments : Text) (p : Pending),
    pre = [] ∨ Text.endsLine pre = true → (∀ t ∈ Token.ofText (pre ++ post), t.kind ≠ .error) →
    ¬Token.InBody (Token.before (.after pre) (Token.ofText (pre ++ post))) →
    State.past none ((Token.before (.after pre) (Token.ofText (pre ++ post))).filter
      Token.isBlockKeyword) = some p →
    indent.all isHorizontal = true → '\n' ∉ arguments →
    (Parsed.ofText (pre ++ Text.callLine indent arguments ++ post)).document.blocks.map (·.block) =
      (Parsed.ofText (pre ++ post)).document.blocks.map (·.block) :=
  fun h => absurd (h "ON ERROR\na\n".toList "b\nEND\n".toList "  ".toList "s.e".toList
      ⟨⟨.statementKeyword, "ON ERROR".toList, .start⟩, .onError, false⟩ (Or.inr (by decide +kernel))
      (by decide +kernel) (by decide +kernel) (by decide +kernel) (by decide) (by decide))
    (by decide +kernel)

end PromptScript
