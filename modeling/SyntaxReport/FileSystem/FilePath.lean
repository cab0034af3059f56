/- Paths as a file system has them, which need be no text, and their JSON form. -/
import SyntaxReport.Json.Form
import SyntaxReport.Text.Utf8.Lemmas

namespace SyntaxReport

structure FilePath where
  bytes : Bytes
deriving DecidableEq, Repr

namespace FilePath

def ofText (text : String) : FilePath := ⟨bytesOf text⟩

def text? (p : FilePath) : Option String := (Utf8.decode? p.bytes).map String.ofList

def IsText (p : FilePath) : Prop := ∃ text, p = .ofText text

theorem text?_eq_some_iff {p : FilePath} {text : String} :
    p.text? = some text ↔ p = .ofText text := by
  obtain ⟨bytes⟩ := p
  simp only [text?, ofText, bytesOf, mk.injEq, Option.map_eq_some_iff, Utf8.decode?_eq_some_iff]
  constructor
  · rintro ⟨list, same, rfl⟩
    rw [String.toList_ofList]
    exact same
  · intro same
    exact ⟨text.toList, same, String.ofList_toList⟩

@[simp] theorem text?_ofText (text : String) : (ofText text).text? = some text :=
  text?_eq_some_iff.mpr rfl

theorem isText_iff {p : FilePath} : p.IsText ↔ p.text?.isSome = true := by
  simp only [Option.isSome_iff_exists, text?_eq_some_iff, IsText]

/-- A path that is no text cannot be written. -/
instance : Form FilePath where
  write p := .str (p.text?.getD "")
  read? j := (Form.read? j).map ofText
  writable p := p.text?.isSome

end FilePath
end SyntaxReport
