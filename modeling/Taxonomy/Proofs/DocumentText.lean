import Taxonomy.Proofs.DocumentForms

/-!
# Texts of documents

A text writes a document if it writes a value that does. Every such text is read as the
document it writes, and every document has such a text.
-/
namespace Taxonomy.Document

open Json (Value)

/-- The text writes the document. -/
def WrittenAs (document : Document) (text : String) : Prop :=
  ∃ value, ObjectWritten document.forms value ∧ value.WrittenAs text

/-! ## Every document has a text -/

section Writable

variable {α : Type}

/-- A mandatory field has the key it is given. -/
@[simp]
theorem Form.mandatory_key (key : String) (written : α → Value → Prop) (content : α) :
    (Form.mandatory key written content).key = key := rfl

/-- An optional field has the key it is given, with or without content. -/
@[simp]
theorem Form.optional_key (key : String) (written : α → Value → Prop) (content : Option α) :
    (Form.optional key written content).key = key := by
  cases content <;> rfl

/-- A field with a default has the key it is given. -/
@[simp]
theorem Form.defaulted_key (key : String) (default : α) (written : α → Value → Prop)
    (content : α) : (Form.defaulted key default written content).key = key := rfl

/-- Something can be written under the key. -/
def Form.Writable (form : Form) : Prop :=
  ∃ value, form.Written value

/-- A mandatory field can be written if its content can. -/
@[simp]
theorem Form.mandatory_writable (key : String) (written : α → Value → Prop) (content : α) :
    (Form.mandatory key written content).Writable ↔ ∃ value, written content value := Iff.rfl

/-- An optional field can be written as null if there is nothing to say. -/
@[simp]
theorem Form.optional_writable (key : String) (written : α → Value → Prop) (content : Option α) :
    (Form.optional key written content).Writable ↔
      ∀ given ∈ content, ∃ value, written given value := by
  cases content with
  | none => exact ⟨fun _ _ isGiven => (nomatch isGiven), fun _ => ⟨.null, rfl⟩⟩
  | some content => simp [Form.optional]

/-- A field with a default can be written if its content can, also where it could be left out. -/
@[simp]
theorem Form.defaulted_writable (key : String) (default : α) (written : α → Value → Prop)
    (content : α) :
    (Form.defaulted key default written content).Writable ↔ ∃ value, written content value :=
  Iff.rfl

/-- Every text can be written. -/
@[simp]
theorem exists_text (content : String) : ∃ value, TextWritten content value :=
  ⟨_, rfl⟩

/-- Every flag can be written. -/
@[simp]
theorem exists_flag (content : Bool) : ∃ value, FlagWritten content value :=
  ⟨_, rfl⟩

/-- Every choice has a word. -/
@[simp]
theorem exists_choice [Spelled α] (content : α) : ∃ value, ChoiceWritten content value :=
  ⟨_, rfl⟩

/-- A list can be written if its items can. -/
theorem exists_list {written : α → Value → Prop} {contents : List α}
    (each : ∀ content ∈ contents, ∃ value, written content value) :
    ∃ value, ListWritten written contents value := by
  have : Nonempty Value := ⟨.null⟩
  choose! value writing using each
  refine ⟨.array (contents.map value) .closed, ⟨?_⟩⟩
  rw [List.forall₂_map_right_iff, List.forall₂_same]
  exact writing

/-- An object can be written if its fields can. -/
theorem exists_object {forms : List Form} (distinct : (forms.map Form.key).Nodup)
    (each : ∀ form ∈ forms, form.Writable) : ∃ value, ObjectWritten forms value := by
  have : Nonempty Value := ⟨.null⟩
  unfold Form.Writable at each
  choose! value writing using each
  have keys : (forms.map fun form => (form.key, value form)).map Prod.fst = forms.map Form.key := by
    simp [Function.comp_def]
  refine ⟨.object (forms.map fun form => (form.key, value form)) .closed, ⟨?_, ?_, ?_⟩⟩
  · rwa [keys]
  · rw [keys]
    exact fun _ member => member
  · refine fun form listed => ⟨fun content member => ?_, .inl ?_⟩
    · obtain ⟨other, otherListed, same⟩ := List.mem_map.mp member
      obtain ⟨key, rfl⟩ := Prod.mk.inj same
      obtain rfl := List.inj_on_of_nodup_map distinct otherListed listed key
      exact writing other otherListed
    · rw [keys]
      exact List.mem_map_of_mem listed

end Writable

/-- Every member can be written. -/
theorem Member.exists_written (member : Member) : ∃ value, member.Written value := by
  apply exists_object
  · simp [Member.forms]
  · simp [Member.forms]

/-- Every type can be written. -/
theorem TypeDef.exists_written (type : TypeDef) : ∃ value, type.Written value := by
  have publicity (content : Publicity) : ∃ value, content.Written value := by
    cases content with
    | flag isPublic => exact exists_flag isPublic
    | named name => exact exists_text name
  have members : ∃ value, ListWritten Member.Written type.members value :=
    exists_list fun member _ => member.exists_written
  apply exists_object
  · simp [TypeDef.forms]
  · simp [TypeDef.forms, publicity, members]

/-- Every variant can be written. -/
theorem Variant.exists_written (variant : Variant) : ∃ value, variant.Written value := by
  have members (contents : List Member) : ∃ value, ListWritten Member.Written contents value :=
    exists_list fun member _ => member.exists_written
  apply exists_object
  · cases body : variant.body <;> simp [Variant.forms, VariantBody.forms, body]
  · cases body : variant.body <;> simp [Variant.forms, VariantBody.forms, body, members]

/-- A union whose tag starts within 64 bits can be written. -/
theorem Union.exists_written (union : Union) (bounded : ∀ start ∈ union.tag.start, start < 2 ^ 64) :
    ∃ value, union.Written value := by
  have tag : ∃ value, union.tag.Written value := by
    apply exists_object
    · simp [Tag.forms]
    · simpa [Tag.forms, CountWritten] using bounded
  have variants : ∃ value, ListWritten Variant.Written union.variants value :=
    exists_list fun variant _ => variant.exists_written
  apply exists_object
  · simp [Union.forms]
  · simp [Union.forms, tag, variants]

/-- A document whose tags start within 64 bits can be written. -/
theorem exists_value (document : Document)
    (bounded : ∀ union ∈ document.unions, ∀ start ∈ union.tag.start, start < 2 ^ 64) :
    ∃ value, ObjectWritten document.forms value := by
  have types : ∃ value, ListWritten TypeDef.Written document.types value :=
    exists_list fun type _ => type.exists_written
  have unions : ∃ value, ListWritten Union.Written document.unions value :=
    exists_list fun union member => union.exists_written (bounded union member)
  apply exists_object
  · simp [Document.forms]
  · simp [Document.forms, types, unions]

/-- Every text that writes a document is read as that document: the keys of its objects
in any order, what a record does not have left out or null, what has its default left out
or given, the strings spelled in any way and blanks between the tokens. Every document
whose tags start within 64 bits has such a text.

Proof: a writing of a value is split into the tokens it was made of, as every token can be
told from what follows it, and the value is read back from its tokens. Its decoder goes
through the columns of each record. A column finds its entry wherever it stands among
distinct keys, and takes its default where the entry may be missing. A text is made by
choosing a value for each field and a spelling for each token. -/
theorem parse_reads_every_writing (document : Document) :
    (∀ text, document.WrittenAs text → parse text = .ok document) ∧
      ((∀ union ∈ document.unions, ∀ start ∈ union.tag.start, start < 2 ^ 64) →
        ∃ text, document.WrittenAs text) := by
  constructor
  · rintro text ⟨value, writing, written⟩
    have fits : value.Fits Json.maxDepth := (decodes.fits writing).mono (by decide)
    rw [parse, Json.Value.ofText_written fits written]
    simp [decodes.result writing, bind, Except.bind, pure, Except.pure]
  · intro bounded
    obtain ⟨value, writing⟩ := exists_value document bounded
    obtain ⟨text, written⟩ := (decodes.fits writing).exists_text
    exact ⟨text, value, writing, written⟩

/-- A variant of which nothing is said that could be left out. -/
def tea : Variant where
  name := "🍵"
  body := .wrapped "Tea" none

/-- A tag with the largest start. -/
def cup : Tag where
  name := "Cup"
  underlying := "u64"
  start := some (2 ^ 64 - 1)

/-- A document with one union and no types. -/
def drinks : Document where
  unions := [{ name := "Drink", tag := cup, variants := [tea] }]

/-- A text of the document. The kind stands last in its variant, a null stands for nothing
to say, and two strings are spelled with code units. -/
def drinksText : String :=
  "\x7b\"unions\": [\x7b\"variants\": [\x7b\"name\": \"\\ud83c\\uDF75\", " ++
    "\"target\": \"\\u0054ea\", \"pass_as\": null, \"kind\": \"alias\"\x7d],\n" ++
    "\"name\": \"Drink\", \"tag\": \x7b\"start\": 18446744073709551615, " ++
    "\"underlying\": \"u64\", \"name\": \"Cup\"\x7d\x7d]\x7d"

/-- The entries of the variant. The kind is not the first of them. -/
def teaEntries : List (String × Value) :=
  [("name", .text "🍵"), ("target", .text "Tea"), ("pass_as", .null), ("kind", .text "alias")]

/-- The entries of the tag. -/
def cupEntries : List (String × Value) :=
  [("start", .number (.natural (2 ^ 64 - 1))), ("underlying", .text "u64"), ("name", .text "Cup")]

/-- The value that the text stands for. -/
def drinksValue : Value :=
  .object [("unions", .array [.object [
      ("variants", .array [.object teaEntries .closed] .closed),
      ("name", .text "Drink"),
      ("tag", .object cupEntries .closed)] .closed] .closed)] .closed

open Json in
/-- The text writes the value. -/
theorem drinks_text_written : drinksValue.WrittenAs drinksText := by
  have space : Blank [' '] := by simp [Blank]
  have newline : Blank ['\n'] := by simp [Blank]
  have cup : (Token.text "🍵").Written
      ['"', '\\', 'u', 'd', '8', '3', 'c', '\\', 'u', 'D', 'F', '7', '5', '"'] := by
    have high : UnitWritten (0xd800 + ('🍵'.toNat - 0x10000) / 0x400) ['d', '8', '3', 'c'] :=
      .digits (by decide : IsHexDigit 'd' 13) (by decide : IsHexDigit '8' 8)
        (by decide : IsHexDigit '3' 3) (by decide : IsHexDigit 'c' 12)
    have low : UnitWritten (0xdc00 + ('🍵'.toNat - 0x10000) % 0x400) ['D', 'F', '7', '5'] :=
      .digits (by decide : IsHexDigit 'D' 13) (by decide : IsHexDigit 'F' 15)
        (by decide : IsHexDigit '7' 7) (by decide : IsHexDigit '5' 5)
    have body := CharsWritten.cons (CharWritten.pair (c := '🍵') (by decide) high low) .nil
    rw [show ['🍵'] = "🍵".toList by simp] at body
    exact .text body
  have tea : (Token.text "Tea").Written
      ['"', '\\', 'u', '0', '0', '5', '4', 'e', 'a', '"'] := by
    have unit : UnitWritten 'T'.toNat ['0', '0', '5', '4'] :=
      .digits (by decide : IsHexDigit '0' 0) (by decide : IsHexDigit '0' 0)
        (by decide : IsHexDigit '5' 5) (by decide : IsHexDigit '4' 4)
    have plain (c : Char) (visible : ' ' ≤ c ∧ c ≠ '"' ∧ c ≠ '\\') : CharWritten c [c] :=
      .plain visible.1 visible.2.1 visible.2.2
    have body := CharsWritten.cons (.unit unit) <| .cons (plain 'e' (by decide)) <|
      .cons (plain 'a' (by decide)) .nil
    rw [show ['T', 'e', 'a'] = "Tea".toList by simp] at body
    exact .text body
  have written := TokensWritten.cons .nil .openObject <|
    .cons .nil (.plain "unions" (by simp)) <| .cons .nil .colon <| .cons space .openArray <|
    .cons .nil .openObject <|
    .cons .nil (.plain "variants" (by simp)) <| .cons .nil .colon <| .cons space .openArray <|
    .cons .nil .openObject <|
    .cons .nil (.plain "name" (by simp)) <| .cons .nil .colon <| .cons space cup <|
    .cons .nil .comma <|
    .cons space (.plain "target" (by simp)) <| .cons .nil .colon <| .cons space tea <|
    .cons .nil .comma <|
    .cons space (.plain "pass_as" (by simp)) <| .cons .nil .colon <| .cons space .null <|
    .cons .nil .comma <|
    .cons space (.plain "kind" (by simp)) <| .cons .nil .colon <|
    .cons space (.plain "alias" (by simp)) <|
    .cons .nil .closeObject <| .cons .nil .closeArray <| .cons .nil .comma <|
    .cons newline (.plain "name" (by simp)) <| .cons .nil .colon <|
    .cons space (.plain "Drink" (by simp)) <| .cons .nil .comma <|
    .cons space (.plain "tag" (by simp)) <| .cons .nil .colon <| .cons space .openObject <|
    .cons .nil (.plain "start" (by simp)) <| .cons .nil .colon <|
    .cons space (.number (by decide : 2 ^ 64 - 1 < 2 ^ 64)) <| .cons .nil .comma <|
    .cons space (.plain "underlying" (by simp)) <| .cons .nil .colon <|
    .cons space (.plain "u64" (by simp)) <| .cons .nil .comma <|
    .cons space (.plain "name" (by simp)) <| .cons .nil .colon <|
    .cons space (.plain "Cup" (by simp)) <|
    .cons .nil .closeObject <| .cons .nil .closeObject <| .cons .nil .closeArray <|
    .cons .nil .closeObject <| .nil .nil
  rw [Value.WrittenAs]
  convert written using 1
  · cbv
  · cbv

/-- The value writes the document. -/
theorem drinks_value_written : ObjectWritten drinks.forms drinksValue := by
  have teaWritten : tea.Written (.object teaEntries .closed) := by
    refine .object (by decide) (by simp [Variant.forms, VariantBody.forms, tea, teaEntries]) ?_
    simp [Variant.forms, VariantBody.forms, VariantBody.kind, tea, teaEntries, Form.holds_iff,
      Form.mandatory, Form.optional, TextWritten, ChoiceWritten, spelling]
  have cupWritten : cup.Written (.object cupEntries .closed) := by
    refine .object (by decide) (by simp [Tag.forms, cupEntries]) ?_
    simp [Tag.forms, cup, cupEntries, Form.holds_iff, Form.mandatory, Form.optional, TextWritten,
      CountWritten]
  have variants : ListWritten Variant.Written [tea] (.array [.object teaEntries .closed] .closed) :=
    .array (.cons teaWritten .nil)
  have drinkWritten : Union.Written { name := "Drink", tag := cup, variants := [tea] }
      (.object [("variants", .array [.object teaEntries .closed] .closed),
        ("name", .text "Drink"), ("tag", .object cupEntries .closed)] .closed) := by
    refine .object (by decide) (by simp [Union.forms]) ?_
    simp [Union.forms, Form.holds_iff, Form.mandatory, Form.optional, Form.defaulted, TextWritten,
      cupWritten, variants]
  refine .object (by decide) (by simp [Document.forms]) ?_
  simpa [Document.forms, drinks, Form.holds_iff, Form.defaulted] using
    ListWritten.array (.cons drinkWritten .nil)

/-- The text of the drinks is read as the drinks. -/
theorem parse_reads_drinks :
    drinks.WrittenAs drinksText ∧ parse drinksText = .ok drinks ∧
      (∀ union ∈ drinks.unions, ∀ start ∈ union.tag.start, start < 2 ^ 64) ∧
      ∃ text, drinks.WrittenAs text := by
  have written : drinks.WrittenAs drinksText :=
    ⟨drinksValue, drinks_value_written, drinks_text_written⟩
  have bounded : ∀ union ∈ drinks.unions, ∀ start ∈ union.tag.start, start < 2 ^ 64 := by
    simp [drinks, cup]
  obtain ⟨reads, writable⟩ := parse_reads_every_writing drinks
  exact ⟨written, reads drinksText written, bounded, writable bounded⟩

end Taxonomy.Document
