import TraceReplay.Interchange.Encode
import TraceReplay.Proofs.Interchange.Document
import TraceReplay.Proofs.Reading.Extent

/-!
Documents that are edited. A draft is laid out like a datum, but its leaves are any texts, so a value at some
place can be replaced by another one and a member can be left out.
-/
namespace TraceReplay.Interchange

open Utf8 Grammar

inductive Draft
  | leaf (text : String)
  | list (items : List Draft)
  | record (members : List (String × Draft))
deriving Inhabited

mutual

def Draft.write (layout : Layout) (level : Nat) (rest : List Char) : Draft → List Char
  | .leaf text => text.toList ++ rest
  | .list [] => ['[', ']'] ++ rest
  | .list (item :: items) =>
    '[' :: writeDrafts layout level 0 (layout.lineBreak level ++ ']' :: rest) (item :: items)
  | .record members =>
    '\x7b' :: writeDraftMembers layout level 0 (layout.lineBreak level ++ '\x7d' :: rest) members

def writeDrafts (layout : Layout) (level index : Nat) (rest : List Char) : List Draft → List Char
  | [] => rest
  | item :: items =>
    layout.before level index ++
      item.write layout (level + 1) (writeDrafts layout level (index + 1) rest items)

def writeDraftMembers (layout : Layout) (level index : Nat) (rest : List Char) :
    List (String × Draft) → List Char
  | [] => rest
  | (key, value) :: members =>
    layout.before level index ++ writeText key (layout.colon ++
      value.write layout (level + 1) (writeDraftMembers layout level (index + 1) rest members))

end

mutual

def Datum.draft : Datum → Draft
  | .list items => .list (itemDrafts items)
  | .record kind values => .record (memberDrafts kind.fields values)
  | datum => .leaf (String.ofList (datum.write .compact 0 []))

def itemDrafts : List Datum → List Draft
  | [] => []
  | item :: items => item.draft :: itemDrafts items

def memberDrafts : List Field → List Datum → List (String × Draft)
  | field :: fields, value :: values => (field.key, value.draft) :: memberDrafts fields values
  | _, _ => []

end

namespace Draft

def text (draft : Draft) (layout : Layout) : String := String.ofList (draft.write layout 0 [])

end Draft

section Writing

variable (layout : Layout)

mutual

/-- A draft that is not changed is written as its datum is. -/
theorem write_draft (level : Nat) (rest : List Char) : (datum : Datum) →
    datum.draft.write layout level rest = datum.write layout level rest
  | .absent | .text _ | .flag true | .flag false | .number _ => by
    simp [Datum.draft, Draft.write, Datum.write, writeText]
  | .list [] => rfl
  | .list (item :: items) => by
    rw [Datum.draft, Datum.write, ← writeDrafts_itemDrafts]
    rfl
  | .record kind values => by
    rw [Datum.draft, Datum.write, Draft.write, writeDraftMembers_memberDrafts]

theorem writeDrafts_itemDrafts (level index : Nat) (rest : List Char) : (items : List Datum) →
    writeDrafts layout level index rest (itemDrafts items) = writeItems layout level index rest items
  | [] => rfl
  | item :: items => by
    rw [itemDrafts, writeDrafts, writeItems, writeDrafts_itemDrafts, write_draft]

theorem writeDraftMembers_memberDrafts (level index : Nat) (rest : List Char) :
    (fields : List Field) → (values : List Datum) →
      writeDraftMembers layout level index rest (memberDrafts fields values) =
        writeMembers layout level index rest fields values
  | [], [] | [], _ :: _ | _ :: _, [] => rfl
  | field :: fields, value :: values => by
    rw [memberDrafts, writeDraftMembers, writeMembers, writeDraftMembers_memberDrafts, write_draft]

end

end Writing

namespace Draft

/-- However the draft is laid out, what is written spells this value, in front of anything. -/
def Spells (draft : Draft) (json : Json) : Prop :=
  ∀ layout level rest, Value (ofChars (draft.write layout level rest)) json (ofChars rest)

variable {text : String} {json : Json} {items : List Draft} {members : List (String × Draft)}
  {values : List Json} {written : List (Option String × Json)}

/-- What spells a value is a document of it where nothing stands behind. -/
theorem Spells.document {draft : Draft} (spells : draft.Spells json) (layout : Layout) :
    Grammar.Document (encode (draft.text layout)) json := by
  rw [Draft.text, encode_ofList]
  exact ⟨_, [], .none, spells layout 0 [], .none⟩

end Draft

end TraceReplay.Interchange
