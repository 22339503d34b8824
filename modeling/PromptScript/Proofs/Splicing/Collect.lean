import PromptScript.Proofs.Splicing.Region

/-!
# Collecting loose text

A section or a branch of a block collects the loose text of its items, line by line, and drops the
line it is at when a line of the script held nothing but references. Only text that ends a line
settles it. A line that ends in text recovered as the body of a reference is not settled, and what
it held is dropped as well when a line of references alone comes before the next text that ends its
line. Ink is lost in no other way.
-/

namespace PromptScript

/-- Adding no text changes nothing. -/
theorem TextBuffer.push_nil (b : TextBuffer) : b.push [] = b := by
  simp [push, Text.endsLine]

namespace Item

/-- Whether the line that items are at ends with nothing on it but white space and references, of
which at least one; it may have held a reference before. -/
def vanishes (hasReference : Bool) : List Item → Bool
  | .text t :: rest =>
    t.isBlank && (if t.endsLine then hasReference else vanishes hasReference rest)
  | .reference _ _ _ tail :: rest => tail.endsLine || vanishes true rest
  | _ => false

/-- Whether a line begins after an item although no loose text ended the line before. -/
def breaksLine : Item → Bool
  | .text _ => false
  | .reference _ _ _ tail => tail.endsLine
  | _ => true

/-- Whether loose text right before items, which does not end its line, is dropped when a later line
holds nothing but references. Text that ends its line first settles both. -/
def isForgotten : List Item → Bool
  | [] => false
  | .text t :: rest => !t.endsLine && isForgotten rest
  | item :: rest => (item.breaksLine && vanishes false rest) || isForgotten rest

/-- The loose text of items that is not forgotten. Text that ends its line never is. -/
def keptText : List Item → Text
  | [] => []
  | item :: rest =>
    (if !Text.endsLine item.loose && isForgotten rest then [] else item.loose) ++ keptText rest

/-- Whether loose text with ink is forgotten. -/
def forgets : List Item → Bool
  | [] => false
  | item :: rest =>
    (!Text.isBlank item.loose && !Text.endsLine item.loose && isForgotten rest) || forgets rest

/-- What is kept is loose text in its order. -/
theorem keptText_sublist (items : List Item) : (keptText items).Sublist (looseText items) := by
  induction items with
  | nil => exact .slnil
  | cons item rest ih =>
    rw [keptText, looseText_cons]
    split
    · exact ih.trans (List.sublist_append_right _ _)
    · exact ih.append_left _

/-- The ink of all loose text is kept exactly if none of it is forgotten. -/
theorem ink_keptText_iff (items : List Item) :
    Text.ink (keptText items) = Text.ink (looseText items) ↔ forgets items = false := by
  induction items with
  | nil => simp [keptText, forgets]
  | cons item rest ih =>
    rw [keptText, forgets, looseText_cons, Text.ink_append, Text.ink_append]
    by_cases hdropped : (!Text.endsLine item.loose && isForgotten rest) = true
    · rw [if_pos hdropped, Bool.and_assoc, hdropped]
      cases hblank : Text.isBlank item.loose with
      | true =>
        rw [Text.ink_of_isBlank hblank]
        simpa using ih
      | false =>
        -- the dropped ink is missing, and what follows does not make up for it
        have hpos : 0 < (Text.ink item.loose).length := by
          rw [List.length_pos_iff, ne_eq, Text.ink_eq_nil_iff, hblank]
          exact Bool.false_ne_true
        have hle : (Text.ink (keptText rest)).length ≤ (Text.ink (looseText rest)).length :=
          ((keptText_sublist rest).filter _).length_le
        refine iff_of_false (fun heq => ?_) (by simp)
        have hlength := congrArg List.length heq
        simp only [Text.ink_nil, List.length_append, List.length_nil] at hlength
        omega
    · rw [if_neg hdropped, Bool.and_assoc, Bool.eq_false_iff.mpr hdropped,
        List.append_cancel_left_eq]
      simpa using ih

end Item

/-- A text in the making, and what is known of the current line of the script. -/
structure Collecting where
  /-- The text so far. -/
  buffer : TextBuffer
  /-- Whether the current line held nothing but white space and references so far. -/
  lineBlank : Bool
  /-- Whether a reference was spliced out of the current line. -/
  lineHasReference : Bool

namespace Collecting

/-- The start of the text of a section. -/
def afterHeader : Collecting := ⟨.empty, false, false⟩

/-- The start of the text of a branch, with the rest of the line that begins it. -/
def ofLine (line : Text) : Collecting := ⟨.ofLine line, true, false⟩

/-- Whether an item ends a line that held nothing but white space and references. -/
def isBareAfter (c : Collecting) : Item → Bool
  | .text t => c.lineBlank && c.lineHasReference && t.isBlank && t.endsLine
  | .reference _ _ _ tail => c.lineBlank && tail.endsLine
  | _ => false

/-- What is collected with one more item. -/
def step (c : Collecting) (item : Item) : Collecting where
  buffer := if c.isBareAfter item then c.buffer.dropLine else c.buffer.push item.loose
  lineBlank :=
    match item with
    | .text t => t.endsLine || (c.lineBlank && t.isBlank)
    | .reference _ _ _ tail => tail.endsLine || c.lineBlank
    | _ => true
  lineHasReference :=
    match item with
    | .text t => c.lineHasReference && !t.endsLine
    | .reference _ _ _ tail => !tail.endsLine
    | _ => false

/-- What is collected with more items. -/
def run (c : Collecting) (items : List Item) : Collecting :=
  items.foldl step c

@[simp] theorem run_nil (c : Collecting) : c.run [] = c := rfl

@[simp] theorem run_cons (c : Collecting) (item : Item) (items : List Item) :
    c.run (item :: items) = (c.step item).run items := rfl

variable (c : Collecting)

/-- Whether the line that the collected text is at is dropped in the course of items. -/
def dropsLine (items : List Item) : Bool :=
  Item.isForgotten items || (c.lineBlank && Item.vanishes c.lineHasReference items)

/-- What is kept of the collected text and of the loose text of items. -/
def kept (items : List Item) : Text :=
  c.buffer.settled ++ (if c.dropsLine items then [] else c.buffer.pending) ++ Item.keptText items

/-- What stays of the collected text in the course of items: all but the line that it is at, if that
is dropped. -/
def stays (items : List Item) : Text :=
  c.buffer.settled ++ if c.dropsLine items then [] else c.buffer.pending

/-- The collecting with nothing collected so far. -/
def anew : Collecting :=
  { c with buffer := .empty }

/-- What stays past an item is what stays before it and what stays of the item. -/
theorem stays_step (item : Item) (items : List Item) :
    (c.step item).stays items = c.stays (item :: items) ++ (c.anew.step item).stays items := by
  cases item with
  | text t =>
    have hlast : t.endsLine = Text.endsLine t.text := rfl
    cases hends : t.endsLine with
    | true =>
      have hdrops : c.dropsLine (.text t :: items) = c.isBareAfter (.text t) := by
        simp [dropsLine, isBareAfter, Item.isForgotten, Item.vanishes, hends, Bool.and_assoc,
          Bool.and_comm]
      have hsame : c.anew.isBareAfter (.text t) = c.isBareAfter (.text t) := rfl
      have hnothing : c.anew.buffer = ⟨[], []⟩ := rfl
      rw [hlast] at hends
      cases hbare : c.isBareAfter (.text t) <;>
        simp [stays, hdrops, step, hsame, hbare, hnothing, Item.loose, TextBuffer.push,
          TextBuffer.text, TextBuffer.dropLine, hends]
    | false =>
      have hbare (c : Collecting) : c.isBareAfter (.text t) = false := by simp [isBareAfter, hends]
      have hdrops (c : Collecting) : c.dropsLine (.text t :: items) = (c.step (.text t)).dropsLine items := by
        simp [dropsLine, step, Item.isForgotten, Item.vanishes, hends, Bool.and_assoc]
      have hsame : (c.anew.step (.text t)).dropsLine items = (c.step (.text t)).dropsLine items := rfl
      have hbuffer (c : Collecting) :
          (c.step (.text t)).buffer = ⟨c.buffer.settled, c.buffer.pending ++ t.text⟩ := by
        rw [hlast] at hends
        simp [step, hbare, TextBuffer.push, Item.loose, hends]
      rw [stays, stays, stays, hsame, hdrops, hbuffer, hbuffer]
      cases (c.step (.text t)).dropsLine items <;> simp [anew, TextBuffer.empty]
  | reference start name target tail =>
    simp only [stays, dropsLine, step, isBareAfter, anew, Item.loose, Item.isForgotten, Item.vanishes,
      Item.breaksLine, TextBuffer.push_nil, TextBuffer.empty]
    by_cases hends : tail.endsLine = true <;> by_cases hblank : c.lineBlank = true <;>
      simp [hends, hblank, TextBuffer.dropLine, Bool.or_comm]
  | header | statement | stray =>
    simp [stays, dropsLine, step, isBareAfter, anew, Item.loose, Item.isForgotten, Item.vanishes,
      Item.breaksLine, TextBuffer.push_nil, TextBuffer.empty, Bool.or_comm]

/-- What is collected in the end is what stays of the collected text and what the items give on
their own. -/
theorem text_run (items : List Item) :
    (c.run items).buffer.text = c.stays items ++ (c.anew.run items).buffer.text := by
  induction items generalizing c with
  | nil =>
    simp [stays, anew, dropsLine, Item.isForgotten, Item.vanishes, TextBuffer.text, TextBuffer.empty]
  | cons item items ih =>
    have hanew : (c.anew.step item).anew = (c.step item).anew := rfl
    rw [run_cons, ih, stays_step, run_cons, ih (c.anew.step item), hanew, List.append_assoc]

/-- What stays of an item has the ink of its loose text, unless that is forgotten. -/
theorem ink_stays_anew (item : Item) (rest : List Item) :
    Text.ink ((c.anew.step item).stays rest) =
      Text.ink (if !Text.endsLine item.loose && Item.isForgotten rest then [] else item.loose) := by
  have hnothing : c.anew.buffer = ⟨[], []⟩ := rfl
  cases item with
  | text t =>
    have hlast : t.endsLine = Text.endsLine t.text := rfl
    have hinkless : t.isBlank = true → Text.ink t.text = [] := Text.ink_of_isBlank
    cases hends : t.endsLine with
    | true =>
      rw [hlast] at hends
      cases hbare : c.anew.isBareAfter (.text t) with
      | true =>
        have hblank : t.isBlank = true := by simp_all [isBareAfter]
        simp [stays, step, hbare, hnothing, TextBuffer.dropLine, Item.loose, hends, hinkless hblank]
      | false =>
        simp [stays, step, hbare, hnothing, TextBuffer.push, TextBuffer.text, Item.loose, hends]
    | false =>
      have hbare : c.anew.isBareAfter (.text t) = false := by simp [isBareAfter, hends]
      rw [hlast] at hends
      have hbuffer : (c.anew.step (.text t)).buffer = ⟨[], t.text⟩ := by
        simp [step, hbare, hnothing, TextBuffer.push, Item.loose, hends]
      cases hforgotten : Item.isForgotten rest with
      | true => simp [stays, dropsLine, hforgotten, hbuffer, Item.loose, hends]
      | false =>
        cases hdrops : (c.anew.step (.text t)).dropsLine rest with
        | true =>
          have hblank : t.isBlank = true := by
            rw [dropsLine, hforgotten, Bool.false_or] at hdrops
            simp_all [step]
          simp [stays, hdrops, hbuffer, Item.loose, hinkless hblank]
        | false => simp [stays, hdrops, hbuffer, Item.loose]
  | reference start name target tail =>
    simp [stays, step, hnothing, Item.loose, TextBuffer.push_nil, TextBuffer.dropLine]
  | header | statement | stray =>
    simp [stays, step, isBareAfter, hnothing, Item.loose, TextBuffer.push_nil]

/-- Collecting an item keeps the ink of what is kept. -/
theorem ink_kept_step (item : Item) (rest : List Item) :
    Text.ink ((c.step item).kept rest) = Text.ink (c.kept (item :: rest)) := by
  have hkept (c : Collecting) (items : List Item) :
      c.kept items = c.stays items ++ Item.keptText items := rfl
  rw [hkept, hkept, stays_step, Item.keptText]
  simp only [Text.ink_append, ink_stays_anew, List.append_assoc]

/-- What is collected in the end has the ink of what is kept. -/
theorem ink_run (items : List Item) :
    Text.ink (c.run items).buffer.text = Text.ink (c.kept items) := by
  induction items generalizing c with
  | nil => simp [kept, dropsLine, Item.isForgotten, Item.vanishes, Item.keptText, TextBuffer.text]
  | cons item items ih => rw [run_cons, ih, ink_kept_step]

/-- A first line leaves nothing pending before it. -/
theorem pending_ofLine (line : Text) : (ofLine line).buffer.pending = [] := by
  simp only [ofLine, TextBuffer.ofLine]
  split
  · rfl
  · rfl

end Collecting

/-- The text that a section collects from the items of its region. -/
def Item.sectionBody (items : List Item) : Text :=
  (Collecting.afterHeader.run items).buffer.finish

/-- The text that a branch of a block collects. -/
def Branch.text (branch : Branch) : Text :=
  ((Collecting.ofLine branch.line).run branch.items).buffer.finish

/-- A section has the ink of what is kept of its region. -/
theorem Item.ink_sectionBody (items : List Item) :
    Text.ink (sectionBody items) = Text.ink (keptText items) := by
  have hpending : Collecting.afterHeader.buffer.pending = [] := rfl
  have hsettled : Collecting.afterHeader.buffer.settled = [] := rfl
  rw [sectionBody, TextBuffer.finish, Text.ink_trim, Collecting.ink_run]
  simp [Collecting.kept, hpending, hsettled]

/-- A branch has the ink of its line and of what is kept of its items. -/
theorem Branch.ink_text (branch : Branch) : Text.ink branch.text =
    Text.ink branch.line ++ Text.ink (Item.keptText branch.items) := by
  have hpending := Collecting.pending_ofLine branch.line
  have hsettled : Text.ink (Collecting.ofLine branch.line).buffer.text = Text.ink branch.line :=
    TextBuffer.ink_ofLine branch.line
  rw [TextBuffer.text, hpending, List.append_nil] at hsettled
  rw [Branch.text, TextBuffer.finish, Text.ink_trim, Collecting.ink_run]
  simp [Collecting.kept, hpending, hsettled]

end PromptScript
