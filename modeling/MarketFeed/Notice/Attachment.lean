import MarketFeed.Json.Node

/-!
# Attachments

Titled fields that go along with the text of a notice.
-/

namespace MarketFeed

/-- A titled value; short ones may stand side by side. -/
structure AttachmentField where
  title : String
  value : String
  short : Bool
  deriving DecidableEq, Repr

/-- A field as an object. -/
def AttachmentField.write (f : AttachmentField) : Json.Node :=
  Json.Node.ofPairs [
    ("title", Json.Node.ofString f.title),
    ("value", Json.Node.ofString f.value),
    ("short", .bool f.short)]

/-- Titled fields, with a text and a colour where they are wanted. -/
structure Attachment where
  title : String
  text : String := ""
  color : Option String := none
  fields : List AttachmentField := []
  deriving DecidableEq, Repr

/-- An attachment as an object; an empty text and a missing colour are left out. -/
def Attachment.write (a : Attachment) : Json.Node :=
  Json.Node.ofPairs ([("title", Json.Node.ofString a.title)]
    ++ (if a.text.isEmpty then [] else [("text", Json.Node.ofString a.text)])
    ++ (match a.color with
        | none => []
        | some color => [("color", Json.Node.ofString color)])
    ++ [("fields", Json.Node.ofList (a.fields.map AttachmentField.write))])

end MarketFeed
