import PromptScript.Proofs.Composition.Down
import PromptScript.Proofs.Composition.Seam
import PromptScript.Proofs.Parsing.LineState
import PromptScript.Proofs.Parsing.Record

/-!
# Scripts compose at blank lines

A script that ends with a blank line and leaves no brace, quote or block open has no effect on what
comes after it: the two scripts in a row say what the first one says and then what the second one
says, further down by the lines of the first.
-/

namespace PromptScript

open Token (Grammar)

/-- The tokens of stretches that stand further down stand further down. -/
theorem Stretch.tokens_down (n : Nat) (p : Position) (ss : List Stretch) :
    tokens (p.down n) ss = (tokens p ss).map (Token.down n) := by
  induction ss generalizing p with
  | nil => rfl
  | cons s ss ih =>
    cases s with
    | token kind text => simp only [tokens, List.map_cons, Position.advance_down, ih]; rfl
    | comment line => simp only [tokens, Position.advance_down, ih]
    | gap space => simp only [tokens, Position.advance_down, ih]

/-- A text that ends a line leads to the start of a line further down. -/
theorem Position.advance_start_of_endsLine {t : Text} (h : Text.endsLine t = true) :
    start.advance t = start.down (t.count '\n') := by
  have hcolumn : (after t).column = 1 := (column_after_eq_one_iff t).mpr (Or.inr h)
  have hline : (after t).line = 1 + t.count '\n' := rfl
  rw [advance_start]
  exact congrArg₂ Position.mk hline hcolumn

/-- A stretch of a token gives a token. -/
theorem Stretch.exists_token_of_mem {kind : Token.Kind} {text : Text} {ss : List Stretch}
    (p : Position) (h : .token kind text ∈ ss) : ∃ t ∈ tokens p ss, t.kind = kind := by
  obtain ⟨pre, post, rfl⟩ := List.append_of_mem h
  rw [tokens_append]
  exact ⟨_, List.mem_append_right _ List.mem_cons_self, rfl⟩

/-- A script has no error token exactly if its stretches leave nothing open. -/
theorem Lexer.Phrases.isClosed_iff {source : Text} {ss : List Stretch}
    (h : Phrases true none source ss) :
    IsClosed ss ↔ ∀ t ∈ Token.ofText source, t.kind ≠ .error := by
  have htokens : Token.ofText source = _ := h.tokens .start
  rw [htokens]
  refine ⟨fun hclosed t ht hkind => ?_, fun hclosed text hmem => ?_⟩
  · rcases List.mem_append.mp ht with ht | ht
    · exact hclosed t.text (hkind ▸ Stretch.mem_of_mem_tokens ht)
    · rw [List.mem_singleton.mp ht] at hkind
      cases hkind
  · obtain ⟨t, ht, hkind⟩ := Stretch.exists_token_of_mem .start hmem
    exact hclosed t (List.mem_append_left _ ht) hkind

/-- The tokens of two scripts in a row are those of the first, without the one for the end, and
those of the second further down. -/
theorem Token.ofText_append {a : Text} (b : Text) (ha : Text.endsLine a = true)
    (hclosed : ∀ t ∈ ofText a, t.kind ≠ .error) :
    ∃ ts last, ofText a = ts ++ [last] ∧ last.kind = .eof ∧
      ofText (a ++ b) = ts ++ (ofText b).map (down (a.count '\n')) := by
  obtain ⟨ss, hss⟩ := Lexer.exists_phrases true none a
  obtain ⟨us, hus⟩ := Lexer.exists_phrases true none b
  have htokens : ofText a = Stretch.tokens .start ss ++ _ := hss.tokens .start
  have hfollowing : ofText b = _ := hus.tokens .start
  have hboth := hss.append_lines (Or.inr ha) (hss.isClosed_iff.mpr hclosed) hus
  have htogether : ofText (a ++ b) = _ := hboth.tokens .start
  refine ⟨_, _, htokens, rfl, ?_⟩
  rw [htogether, hfollowing, List.map_append, ← Stretch.tokens_down, Stretch.tokens_append, hss.join,
    Position.advance_append, Position.advance_start_of_endsLine ha, Position.advance_down,
    List.append_assoc]
  rfl

namespace Item

variable {n : Nat} {item : Item} {items : List Item} {tokens rest : List Token}

/-- Where an item stops depends only on the kind of the token that comes next. -/
theorem StopsAt.congr {after : List Token} (h : item.StopsAt rest)
    (hkind : after.head?.map (·.kind) = rest.head?.map (·.kind)) : item.StopsAt after := by
  cases item with
  | header => trivial
  | statement keyword line =>
    cases line with
    | none => exact hkind.trans h
    | some line => exact ⟨h.1, h.2.1, h.2.2.imp_right hkind.trans⟩
  | text => trivial
  | reference start name target tail =>
    cases tail with
    | none => trivial
    | braced => trivial
    | unterminated mark recovered => exact fun htext => h (hkind.symm.trans htext)
  | stray => trivial

/-- Whether nothing that comes after an item can belong to it. -/
def EndsAnyway : Item → Prop
  | .statement _ rest => ∃ line ∈ rest, line.endsLine = true
  | .reference _ _ _ (.unterminated _ _) => False
  | _ => True

/-- An item to which nothing that comes after can belong stops before anything. -/
theorem StopsAt.of_endsAnyway (h : item.StopsAt rest) (hends : item.EndsAnyway)
    (after : List Token) : item.StopsAt after := by
  cases item with
  | header => trivial
  | statement keyword line =>
    obtain ⟨t, ht, hline⟩ := hends
    cases ht
    exact ⟨h.1, h.2.1, Or.inl hline⟩
  | text => trivial
  | reference start name target tail =>
    cases tail with
    | none => trivial
    | braced => trivial
    | unterminated => exact hends.elim
  | stray => trivial

/-- The items of tokens in a row are those of the first, if the last of them ends anyway, and those
of the others. -/
theorem Groups.ofTokens_append {others : List Token} (h : Groups items tokens)
    (hends : ∀ item ∈ items.getLast?, item.EndsAnyway)
    (hothers : ∀ x ∈ others.head?, x.kind ∈ openingKinds) :
    ofTokens (items.flatMap Item.tokens ++ others) = items ++ ofTokens others := by
  induction h with
  | eof => rfl
  | @cons item items rest hitem hstop hgroups ih =>
    rw [List.flatMap_cons, List.append_assoc, List.cons_append]
    cases items with
    | nil => exact ofTokens_tokens hitem (hstop.of_endsAnyway (hends item rfl) _) hothers
    | cons next items =>
      obtain ⟨t, ts, hnext, ht, -⟩ := (hgroups.isWhole next List.mem_cons_self).exists_head
      obtain ⟨last, -, rfl⟩ := hgroups.exists_last
      have hafter : item.StopsAt ((next :: items).flatMap Item.tokens ++ others) :=
        hstop.congr (by simp [hnext])
      rw [ofTokens_tokens hitem hafter (by simpa [hnext] using ht), ih fun last hlast => hends last ?_]
      rw [List.getLast?_cons_cons]
      exact hlast

/-- Without a brace or a quote that is never closed, an item has no error. -/
theorem IsWhole.kind_ne_error (h : item.IsWhole)
    (hclosed : ∀ start name target mark recovered,
      item ≠ .reference start name target (.unterminated mark recovered)) :
    ∀ t ∈ item.tokens, t.kind ≠ .error := by
  cases item with
  | header t kind => simp [Item.tokens, h.1]
  | statement keyword line =>
    refine List.forall_mem_cons.mpr ⟨by simp [h.1], fun t ht => ?_⟩
    rw [h.2.2 t (by simpa using ht)]
    decide
  | text t =>
    have ht : t.kind = .text := h
    simp [Item.tokens, ht]
  | reference start name target tail =>
    obtain ⟨hstart, hname, htarget, htail⟩ := h
    refine List.forall_mem_cons.mpr ⟨by simp [hstart], List.forall_mem_append.mpr ⟨fun t ht => ?_, ?_⟩⟩
    · rw [hname t (by simpa using ht)]
      decide
    · refine List.forall_mem_append.mpr ⟨fun t ht => ?_, ?_⟩
      · rw [htarget t (by simpa using ht)]
        decide
      · cases tail with
        | none => simp [Tail.tokens]
        | braced opening inner closing =>
          refine List.forall_mem_cons.mpr ⟨by simp [htail.1], fun t ht hkind => ?_⟩
          have hbody := kind_of_body htail.2.1 t ht
          rw [hkind] at hbody
          exact absurd hbody (by decide)
        | unterminated mark recovered => exact absurd rfl (hclosed start name target mark recovered)
  | stray => exact absurd h id

end Item

namespace Item

variable {a : Text} {item : Item}

/-- Without an error, no brace and no quote is left open. -/
theorem not_unterminated (hclosed : ∀ t ∈ Token.ofText a, t.kind ≠ .error) (start : Token)
    (name target : Option Token) (mark : Token) (recovered : List Token) :
    reference start name target (.unterminated mark recovered) ∉ ofTokens (Token.ofText a) := by
  intro hmem
  have hgroups := groups_ofText a
  obtain ⟨-, -, -, htail⟩ := hgroups.isWhole _ hmem
  exact hclosed mark ((hgroups.sublist hmem).subset (by simp [Item.tokens, Tail.tokens])) htail.1

/-- The last token of items is the last token of the last of them. -/
theorem IsWhole.getLast?_flatMap_tokens (h : item.IsWhole) (init : List Item) :
    ((init ++ [item]).flatMap Item.tokens).getLast? = item.tokens.getLast? := by
  obtain ⟨t, ts, hhead, -, -⟩ := h.exists_head
  rw [List.flatMap_append, List.flatMap_singleton, List.getLast?_append, hhead, List.getLast?_cons,
    Option.some_or]

/-- The last item of a script that ends with a line break is text that ends a line, or a statement
with the rest of its line, if nothing is left open. -/
theorem last_of_endsLine (ha : Text.endsLine a = true)
    (hclosed : ∀ t ∈ Token.ofText a, t.kind ≠ .error) :
    ∀ item ∈ (ofTokens (Token.ofText a)).getLast?, ∃ t, item.tokens.getLast? = some t ∧
      t.endsLine = true ∧ (item = .text t ∨ ∃ keyword, item = .statement keyword (some t)) := by
  intro item hmem
  obtain ⟨ss, hss⟩ := Lexer.exists_phrases true none a
  have htokens : Token.ofText a = _ := hss.tokens .start
  have hfit : Stretch.FitAll [] ss [] := hss.fitAll fun _ _ => Or.inl rfl
  have hgroups := groups_ofText a
  obtain ⟨final, -, hflat⟩ := hgroups.exists_last
  have hitems := (List.append_inj' (hflat.symm.trans htokens) rfl).1
  obtain ⟨init, hinit⟩ := List.getLast?_eq_some_iff.mp hmem
  have hitem := hgroups.isWhole item (by rw [hinit]; exact List.mem_append_right _ List.mem_cons_self)
  obtain ⟨x, more, hhead, -, -⟩ := hitem.exists_head
  obtain ⟨t, hend⟩ : ∃ t, item.tokens.getLast? = some t := by
    rw [hhead, List.getLast?_cons]
    exact ⟨_, rfl⟩
  have hlast := hitem.getLast?_flatMap_tokens init
  rw [← hinit, hitems, hend] at hlast
  have hline : t.endsLine = true :=
    Stretch.endsLine_of_join hfit.fits (List.append_nil ss).symm (Or.inr (hss.join ▸ ha)) t hlast
  have hkind : t.kind = .text := Token.kind_of_endsLine a t
    (htokens ▸ List.mem_append_left _ (List.mem_of_getLast? hlast)) hline
  refine ⟨t, hend, hline, ?_⟩
  cases item with
  | header x kind =>
    obtain rfl : x = t := by simpa [Item.tokens] using hend
    rw [hitem.1] at hkind
    cases hkind
  | statement keyword rest =>
    cases rest with
    | none =>
      obtain rfl : keyword = t := by simpa [Item.tokens] using hend
      rw [hitem.1] at hkind
      cases hkind
    | some line =>
      obtain rfl : line = t := by simpa [Item.tokens] using hend
      exact Or.inr ⟨keyword, rfl⟩
  | text x =>
    obtain rfl : x = t := by simpa [Item.tokens] using hend
    exact Or.inl rfl
  | reference start name target tail =>
    refine absurd hkind (kind_of_getLast?_reference hitem ?_ t hend)
    rintro mark recovered rfl
    exact not_unterminated hclosed start name target mark recovered (List.mem_of_getLast? hmem)
  | stray => exact absurd hitem id

/-- The items of two scripts in a row are those of the first, if it ends with a line break and leaves
nothing open, and those of the second further down. -/
theorem ofTokens_append (b : Text) (ha : Text.endsLine a = true)
    (hclosed : ∀ t ∈ Token.ofText a, t.kind ≠ .error) :
    ofTokens (Token.ofText (a ++ b)) =
      ofTokens (Token.ofText a) ++ (ofTokens (Token.ofText b)).map (Item.down (a.count '\n')) := by
  obtain ⟨ts, last, htokens, -, happend⟩ := Token.ofText_append b ha hclosed
  have hgroups := groups_ofText a
  obtain ⟨final, -, hflat⟩ := hgroups.exists_last
  have hfirst := (List.append_inj' (hflat.symm.trans htokens) rfl).1
  have hlast : ∀ item ∈ (ofTokens (Token.ofText a)).getLast?, item.EndsAnyway := by
    intro item hitem
    obtain ⟨t, -, hline, rfl | ⟨keyword, rfl⟩⟩ := last_of_endsLine ha hclosed item hitem
    · trivial
    · exact ⟨t, rfl, hline⟩
  obtain ⟨t, more, hsecond, hopening⟩ := (groups_ofText b).exists_head
  rw [happend, ← hfirst, hgroups.ofTokens_append hlast (by simpa [hsecond] using hopening),
    ofTokens_map (Token.onlyMoves_down _), down_eq_map]

end Item

/-- A text without inner line breaks that a blank line ends is the line break of that line. -/
theorem Text.eq_of_append_blank {front text u : Text} (h : front ++ text = u ++ ['\n', '\n'])
    (hne : text ≠ []) (hline : '\n' ∉ text.dropLast) : front = u ++ ['\n'] ∧ text = ['\n'] := by
  obtain ⟨init, c, rfl⟩ := (List.eq_nil_or_concat' text).resolve_left hne
  rw [List.dropLast_concat] at hline
  have hsplit : (front ++ init) ++ [c] = (u ++ ['\n']) ++ ['\n'] := by simpa using h
  obtain ⟨hfront, hlast⟩ := List.append_inj' hsplit rfl
  cases hlast
  rcases List.eq_nil_or_concat' init with rfl | ⟨lead, x, rfl⟩
  · exact ⟨by simpa using hfront, rfl⟩
  · rw [← List.append_assoc] at hfront
    cases (List.append_inj' hfront rfl).2
    exact absurd (List.mem_append_right lead List.mem_cons_self) hline

/-- A script that ends with a blank line has the line break of that line as its last token. -/
theorem Token.exists_last_of_blank (u : Text) :
    ∃ ts t last, ofText (u ++ ['\n', '\n']) = ts ++ [t, last] ∧ t.text = ['\n'] ∧
      t.place.column = 1 := by
  obtain ⟨ss, hss⟩ := Lexer.exists_phrases true none (u ++ ['\n', '\n'])
  have htokens : ofText (u ++ ['\n', '\n']) = _ := hss.tokens .start
  have hfit : Stretch.FitAll [] ss [] := hss.fitAll fun _ _ => Or.inl rfl
  have hjoin := hss.join
  rcases List.eq_nil_or_concat' ss with rfl | ⟨init, s, rfl⟩
  · exact absurd (congrArg List.length hjoin) (by simp)
  have hs := hfit.fits init s [] rfl
  have hmem : s ∈ init ++ [s] := List.mem_append_right _ List.mem_cons_self
  rw [Stretch.join_append, Stretch.join_cons, Stretch.join_nil, List.append_nil] at hjoin
  cases s with
  | token kind text =>
    have hends : Text.endsLine text = true := by
      have hall : Text.endsLine (u ++ ['\n', '\n']) = true := by simp [Text.endsLine]
      rwa [← hjoin, Stretch.text, Text.endsLine_append hs.2] at hall
    have hkind : kind = .text := hss.endsLineAsText _ hmem hends
    subst hkind
    have hholds : Token.Kind.text.Holds text := hss.allHold _ _ hmem
    obtain ⟨hfront, htext⟩ := Text.eq_of_append_blank hjoin hs.2 hholds
    refine ⟨Stretch.tokens .start init, ⟨.text, text, Position.start.advance (Stretch.join init)⟩,
      ⟨.eof, [], Position.start.advance (u ++ ['\n', '\n'])⟩, ?_, htext, ?_⟩
    · rw [htokens, Stretch.tokens_append, List.append_assoc]
      rfl
    · rw [hfront, Position.advance_start, Position.column_after_eq_one_iff]
      exact Or.inr (by simp [Text.endsLine])
  | comment line =>
    obtain ⟨-, ⟨hhash, hline⟩, -⟩ := hs
    have hne : line ≠ [] := by
      rintro rfl
      cases hhash
    have hblank : line = ['\n'] := (Text.eq_of_append_blank hjoin hne hline).2
    rw [hblank] at hhash
    exact absurd hhash (by decide)
  | gap space =>
    obtain ⟨-, -, -, kind, hhead, -⟩ := hs
    cases hhead

namespace Parsed

/-- What is reported of a script is not on something left open. -/
def IsClosed (p : Parsed) : Prop :=
  ∀ x ∈ p.diagnostics, x.code ≠ "E_UNTERMINATED_REF".toList ∧
    x.code ≠ "E_UNTERMINATED_TARGET".toList ∧ x.code ≠ "E_UNCLOSED_BLOCK".toList

instance (p : Parsed) : Decidable p.IsClosed :=
  inferInstanceAs (Decidable (∀ x ∈ p.diagnostics, _))

/-- Without a report on it, no brace and no quote is left open. -/
theorem IsClosed.not_unterminated {source : Text} (h : (ofText source).IsClosed) (start : Token)
    (name target : Option Token) (mark : Token) (recovered : List Token) :
    Item.reference start name target (.unterminated mark recovered) ∉
      Item.ofTokens (Token.ofText source) := by
  intro hmem
  have hgroups := Item.groups_ofText source
  have horder := (Token.pairwise_ofText source).sublist (hgroups.sublist hmem)
  obtain ⟨span, -, hrecord⟩ := Item.exists_record_reference fun t ht =>
    Position.le_of_lt ((List.pairwise_cons.mp horder).1 t ht)
  have hreports : (ofText source).diagnostics.filter Diagnostic.isLocal = _ :=
    congrArg Record.reports (record_ofText source)
  have hreported : ∀ x ∈ (Item.Tail.unterminated mark recovered).reports
      (Item.kindOfTokens name target), x ∈ (ofText source).diagnostics := by
    intro x hx
    refine List.mem_of_mem_filter (p := Diagnostic.isLocal) ?_
    rw [hreports, Item.reports_records]
    exact List.mem_flatMap.mpr ⟨_, hmem, by rw [hrecord]; exact hx⟩
  rw [Item.Tail.reports] at hreported
  split at hreported
  · exact (h _ (hreported _ List.mem_cons_self)).2.1 rfl
  · exact (h _ (hreported _ List.mem_cons_self)).1 rfl

/-- Without a report on it, no block is left open. -/
theorem IsClosed.openBlock_eq_none {source : Text} (h : (ofText source).IsClosed) :
    (Draft.empty.applyAll (Item.ofTokens (Token.ofText source))).openBlock = none := by
  generalize hread : Draft.empty.applyAll (Item.ofTokens (Token.ofText source)) = d
  have hparsed : (ofText source).diagnostics = d.close.diagnostics := by
    rw [← hread]
    rfl
  cases hblock : d.openBlock with
  | none => rfl
  | some b =>
    have hfinish : d.finishSection.openBlock = some b := by
      unfold Draft.finishSection
      split <;> exact hblock
    have hmem : Document.Problem.unclosedBlock.diagnostic b.span ∈ d.close.diagnostics := by
      rw [Draft.close, Draft.closeUnfinished, hfinish]
      exact List.mem_append_right _ List.mem_cons_self
    exact absurd rfl (h _ (hparsed ▸ hmem)).2.2

/-- Without a report on it, a script has no error token. -/
theorem IsClosed.kind_ne_error {source : Text} (h : (ofText source).IsClosed) :
    ∀ t ∈ Token.ofText source, t.kind ≠ .error := by
  have hgroups := Item.groups_ofText source
  obtain ⟨last, hlast, htokens⟩ := hgroups.exists_last
  rw [htokens]
  refine List.forall_mem_append.mpr ⟨fun t ht => ?_, List.forall_mem_singleton.mpr (by simp [hlast])⟩
  obtain ⟨item, hmem, hitem⟩ := List.mem_flatMap.mp ht
  refine (hgroups.isWhole item hmem).kind_ne_error ?_ t hitem
  rintro start name target mark recovered rfl
  exact h.not_unterminated start name target mark recovered hmem

end Parsed

/-- Without anything left open, the line break of a blank line at the end of a script is its last
item, or the rest of the line of its last statement. -/
theorem Item.last_of_blank {u : Text} (h : (Parsed.ofText (u ++ ['\n', '\n'])).IsClosed) :
    ∃ init item t, ofTokens (Token.ofText (u ++ ['\n', '\n'])) = init ++ [item] ∧
      t.text = ['\n'] ∧ t.place.column = 1 ∧
      (item = .text t ∨ ∃ keyword, item = .statement keyword (some t)) := by
  have hgroups := groups_ofText (u ++ ['\n', '\n'])
  obtain ⟨ts, t, last, htokens, htext, hcolumn⟩ := Token.exists_last_of_blank u
  obtain ⟨final, -, hflat⟩ := hgroups.exists_last
  have hitems : (ofTokens (Token.ofText (u ++ ['\n', '\n']))).flatMap Item.tokens = ts ++ [t] := by
    have hsplit := hflat.symm.trans
      (htokens.trans (by simp : ts ++ [t, last] = (ts ++ [t]) ++ [last]))
    exact (List.append_inj' hsplit rfl).1
  rcases List.eq_nil_or_concat' (ofTokens (Token.ofText (u ++ ['\n', '\n']))) with
    hnil | ⟨init, item, hlast⟩
  · rw [hnil] at hitems
    cases ts <;> cases hitems
  obtain ⟨x, hx, -, hitem⟩ := last_of_endsLine (by simp [Text.endsLine]) h.kind_ne_error item
    (by rw [hlast, List.getLast?_concat]; rfl)
  have hwhole := hgroups.isWhole item (by rw [hlast]; exact List.mem_append_right _ List.mem_cons_self)
  rw [hlast] at hitems
  have hend := hwhole.getLast?_flatMap_tokens init
  rw [hitems, List.getLast?_concat, hx] at hend
  cases hend
  exact ⟨init, item, t, hlast, htext, hcolumn, hitem⟩

/-- After a blank line nothing is begun, if nothing is left open. -/
theorem Draft.applyAll_of_blank {u : Text} (h : (Parsed.ofText (u ++ ['\n', '\n'])).IsClosed)
    {d : Draft} (hd : empty.applyAll (Item.ofTokens (Token.ofText (u ++ ['\n', '\n']))) = d) :
    d.openSection = none ∧ d.openBlock = none ∧ d.lineBlank = true ∧ d.lineHasReference = false := by
  have hblock := h.openBlock_eq_none
  rw [hd] at hblock
  obtain ⟨init, item, t, hitems, htext, hcolumn, hitem⟩ := Item.last_of_blank h
  have hreading : (empty.applyAll init).IsReading [item] :=
    IsReading.applyAll (hitems ▸ isReading_ofText (u ++ ['\n', '\n']))
  rw [hitems, applyAll, List.foldl_append] at hd
  rcases hitem with rfl | ⟨keyword, rfl⟩
  · obtain ⟨hline, hreference⟩ := hreading.column_eq_one_iff.mpr hcolumn
    have hblank : (empty.applyAll init).lineBlank = true ∧ t.isBlank = true ∧ t.endsLine = true :=
      ⟨hline, by rw [Token.isBlank, htext]; rfl, by rw [Token.endsLine, htext]; rfl⟩
    have happly : (empty.applyAll init).text t = d := hd
    rw [text, if_pos hblank, hreference, if_neg (by simp)] at happly
    split at happly
    · rw [← happly] at hblock
      cases hblock
    · have hflags : (empty.applyAll init).finishSection.lineBlank = true ∧
          (empty.applyAll init).finishSection.lineHasReference = false := by
        unfold finishSection
        split <;> exact ⟨hline, hreference⟩
      have hsection : (empty.applyAll init).finishSection.openSection = none := by
        unfold finishSection
        split
        · rfl
        · assumption
      rw [happly] at hflags hsection
      exact ⟨hsection, hblock, hflags⟩
  · have happly : (empty.applyAll init).statement keyword (some t) = d := hd
    rw [← happly] at hblock ⊢
    exact ⟨openSection_statement .., hblock, line_statement ..⟩

/-- Scripts compose at blank lines: after a script that ends with a blank line and leaves nothing
open, another one says what it says alone, further down. -/
theorem scripts_compose {a : Text} (b : Text) (hblank : ∃ u, a = u ++ ['\n', '\n'])
    (h : (Parsed.ofText a).IsClosed) :
    Parsed.ofText (a ++ b) =
      (Parsed.ofText a).append ((Parsed.ofText b).down (a.count '\n')) := by
  obtain ⟨u, rfl⟩ := hblank
  have hends : Text.endsLine (u ++ ['\n', '\n']) = true := by simp [Text.endsLine]
  have hitems := Item.ofTokens_append b hends h.kind_ne_error
  generalize hread : Draft.empty.applyAll (Item.ofTokens (Token.ofText (u ++ ['\n', '\n']))) = d
  obtain ⟨hsection, hblock, hline, hreference⟩ := Draft.applyAll_of_blank h hread
  have hclose : d.close = d := by
    simp [Draft.close, Draft.finishSection, Draft.closeUnfinished, hsection, hblock]
  have hfirst : Parsed.ofText (u ++ ['\n', '\n']) = ⟨d.document, d.diagnostics⟩ := by
    simp only [Parsed.ofText, Parsed.ofTokens, hread, hclose]
  -- the draft after the first script is an empty one further down, after what the first one says
  have honto : d = Draft.empty.onto ((u ++ ['\n', '\n']).count '\n') ⟨d.document, d.diagnostics⟩ := by
    cases d
    simp only at hsection hblock hline hreference
    simp [Draft.onto, Draft.empty, Document.empty, Document.append, Document.down, hsection, hblock,
      hline, hreference]
  have hboth : Draft.empty.applyAll (Item.ofTokens (Token.ofText (u ++ ['\n', '\n'] ++ b))) =
      (Draft.empty.applyAll (Item.ofTokens (Token.ofText b))).onto
        ((u ++ ['\n', '\n']).count '\n') ⟨d.document, d.diagnostics⟩ := by
    rw [hitems, Draft.applyAll, List.foldl_append]
    change Draft.applyAll (Draft.empty.applyAll _) _ = _
    rw [hread, ← Draft.applyAll_onto, ← honto]
  rw [hfirst]
  simp only [Parsed.ofText, Parsed.ofTokens, hboth, Draft.close_onto]
  rfl

/-- After a task and a blank line a reference says what it says alone, two lines further down. -/
theorem scripts_compose_task :
    (∃ u, "TASK: a\n\n".toList = u ++ ['\n', '\n']) ∧
      (Parsed.ofText "TASK: a\n\n".toList).IsClosed ∧
      Parsed.ofText ("TASK: a\n\n".toList ++ "@x{b}\n".toList) =
        (Parsed.ofText "TASK: a\n\n".toList).append ((Parsed.ofText "@x{b}\n".toList).down 2) :=
  have hblank : ∃ u, "TASK: a\n\n".toList = u ++ ['\n', '\n'] := ⟨"TASK: a".toList, rfl⟩
  have hclosed : (Parsed.ofText "TASK: a\n\n".toList).IsClosed := by decide +kernel
  ⟨hblank, hclosed, scripts_compose "@x{b}\n".toList hblank hclosed⟩

end PromptScript
