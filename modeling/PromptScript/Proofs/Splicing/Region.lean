import PromptScript.Proofs.RoundTrip.Bounds

/-!
# Regions

The items of a script belong to the sections and blocks around them. The region of a section runs
from its header to the next header, statement or blank line, and that of a block from its opening to
its END or to the next header; the first ELSE divides the region of a condition into two branches.
The loose text of a region is that of its fragments of text. Text that belongs to a reference or
stands on the line of another statement is not among them.
-/

namespace PromptScript

namespace Item

/-- The text that an item adds to what is collected around it. -/
def loose : Item → Text
  | .text t => t.text
  | _ => []

/-- The loose text of items in a row. -/
def looseText (items : List Item) : Text :=
  items.flatMap loose

@[simp] theorem looseText_nil : looseText [] = [] := rfl

@[simp] theorem looseText_cons (item : Item) (items : List Item) :
    looseText (item :: items) = item.loose ++ looseText items := rfl

/-- Whether an item ends the section that it stands in. A blank line is text of white space alone
that takes up its whole line. -/
def endsSection : Item → Bool
  | .header _ _ => true
  | .statement _ _ => true
  | .text t => t.isBlank && t.endsLine && t.place.column == 1
  | _ => false

/-- The kinds of the sections among items, each with the items of its region. -/
def sectionRegions : List Item → List (SectionKind × List Item)
  | [] => []
  | .header _ kind :: rest => (kind, rest.takeWhile (!·.endsSection)) :: sectionRegions rest
  | _ :: rest => sectionRegions rest

/-- What a statement does. -/
def word? : Item → Option Draft.StatementWord
  | .statement keyword _ => Draft.statementWords.lookup (Text.words keyword.text)
  | _ => none

/-- The rest of the line of a statement. -/
def arguments : Item → Text
  | .statement _ rest => (rest.map fun line => Text.trim line.text).getD []
  | _ => []

/-- The condition of a conditional statement, and the rest of its line after THEN. -/
def conditionalOpening (arguments : Text) : Opening × Text :=
  match Text.splitWord? "THEN".toList arguments with
  | some (c :: condition, rest) => (.conditional (.ofText (c :: condition)), rest)
  | _ => (.conditional (.ofText arguments), [])

/-- The item and the collection of a repetition, and the rest of its line after DO. -/
def forEachOpening (arguments : Text) : Opening × Text :=
  match Draft.repetition? arguments with
  | some (item, collection, body) => (.forEach item collection, body)
  | none =>
    let (item, collection) := (Text.splitWord? "IN".toList arguments).getD (arguments, [])
    (.forEach item collection, [])

/-- The opening of a block, and the rest of its line. -/
def opening? (item : Item) : Option (Opening × Text) :=
  match item.word? with
  | some .conditional => some (conditionalOpening item.arguments)
  | some .forEach => some (forEachOpening item.arguments)
  | some .onError => some (.onError, item.arguments)
  | _ => none

/-- Whether an item ends the block that it stands in. -/
def endsBlock (item : Item) : Bool :=
  match item with
  | .header _ _ => true
  | _ => item.word? == some .finish

/-- Whether an item begins the alternative of a condition. -/
def isOtherwise (item : Item) : Bool :=
  item.word? == some .otherwise

end Item

/-- The text on the line that begins a branch of a block, and the items after it. -/
structure Branch where
  /-- The rest of the line of the statement that begins the branch. -/
  line : Text
  /-- The items after that line. -/
  items : List Item

/-- The alternative among the items of a condition; empty if it has none. -/
def Branch.otherwise (items : List Item) : Branch :=
  match items.dropWhile (!·.isOtherwise) with
  | [] => ⟨[], []⟩
  | item :: rest => ⟨item.arguments, rest⟩

/-- The opening of a block, the rest of its line, and the items inside. -/
structure BlockRegion where
  /-- The statement that opens the block. -/
  opening : Opening
  /-- The rest of the line of that statement. -/
  line : Text
  /-- The items inside the block. -/
  items : List Item

/-- The branches of a block: a condition has an alternative, and any other block has none. -/
def BlockRegion.branches (region : BlockRegion) : List Branch :=
  match region.opening with
  | .conditional _ =>
    [⟨region.line, region.items.takeWhile (!·.isOtherwise)⟩, .otherwise region.items]
  | _ => [⟨region.line, region.items⟩]

/-- The texts of the branches of a block. -/
def Block.branches : Block → List Text
  | .conditional _ body other => [body, other]
  | .forEach _ _ body => [body]
  | .onError body => [body]

/-- The blocks among items. What would open a block inside another one opens none. -/
def Item.blockRegions : List Item → List BlockRegion
  | [] => []
  | item :: rest =>
    match item.opening? with
    | some (opening, line) =>
      ⟨opening, line, rest.takeWhile (!·.endsBlock)⟩ ::
        blockRegions (rest.dropWhile (!·.endsBlock))
    | none => blockRegions rest
termination_by items => items.length
decreasing_by
  · exact Nat.lt_succ_of_le (List.dropWhile_suffix _).length_le
  · exact Nat.lt_succ_self _

end PromptScript
