import Allotment.Proofs.JsonRecords

/-! Layouts that are stored as text and read back. What is written is a text by the grammar, so what is read from it
    follows from how the fields admit the members that have been written. -/

namespace Allotment
open Json
namespace Json

/-! ### Written texts -/

theorem listed_commaSeparated (items : List (List Char)) : Listed items (commaSeparated items) := by
  induction items with
  | nil => exact .none .nil
  | cons item items ih =>
    cases items with
    | nil => simpa [commaSeparated] using (.last .nil .nil : Listed [item] _)
    | cons next items => simpa [commaSeparated] using (.more .nil .nil ih : Listed (item :: next :: items) _)

/-- A form whose fields have names that need no escapes. -/
def Form.Plain {α : Type} (form : Form α) : Prop := ∀ field ∈ form.fields, field.name.toList.all isPlain = true

instance {α : Type} (form : Form α) : Decidable form.Plain :=
  inferInstanceAs (Decidable (∀ field ∈ form.fields, field.name.toList.all isPlain = true))

/-- The members of a record as it is written. -/
def membersOf (fields : List Field) (values : List (Option Cells)) : List Member :=
  (fields.zip values).map fun (field, value) => ⟨field.name, valueText value⟩

theorem valueText_membersOf (fields : List Field) (values : List (Option Cells)) :
    ∀ member ∈ membersOf fields values, ValueText member.value := by
  intro member hmember
  obtain ⟨⟨field, value⟩, -, rfl⟩ := List.mem_map.mp hmember
  exact valueText_value value

section Written
variable {α : Type} {form : Form α}

theorem membersText_membersOf {fields : List Field}
    (h : ∀ field ∈ fields, field.name.toList.all isPlain = true) (values : List (Option Cells)) :
    MembersText (membersOf fields values) (commaSeparated (fields.zipWith memberText values)) := by
  refine .mk ?_ (listed_commaSeparated _)
  induction fields generalizing values with
  | nil => exact .nil
  | cons field fields ih =>
    obtain ⟨hfield, hfields⟩ := List.forall_mem_cons.mp h
    cases values with
    | nil => exact .nil
    | cons value values => exact .cons (.bare (.of_plain hfield) _) (ih hfields values)

theorem valueText_text (hplain : form.Plain) (a : α) : ValueText (form.text a) :=
  .object (membersText_membersOf hplain _) (valueText_membersOf _ _)

theorem valuesOf_membersOf_of_notMem {key : String} {fields : List Field} (h : key ∉ fields.map Field.name)
    (values : List (Option Cells)) : valuesOf key (membersOf fields values) = [] := by
  rw [valuesOf, List.map_eq_nil_iff, List.filter_eq_nil_iff]
  intro member hmember
  obtain ⟨⟨field, value⟩, hzip, rfl⟩ := List.mem_map.mp hmember
  have hfield : field.name ∈ fields.map Field.name := List.mem_map_of_mem (List.of_mem_zip hzip).1
  simpa using fun heq : field.name = key => h (heq ▸ hfield)

/-- Each field has the one member that has been written for it. -/
theorem admits_membersOf {fields : List Field} {values : List (Option Cells)} (hnodup : (fields.map Field.name).Nodup)
    (hallows : List.Forall₂ Field.Allows fields values) :
    List.Forall₂ (fun field value => Form.Admits field (valuesOf field.name (membersOf fields values)) value) fields
      values := by
  induction hallows with
  | nil => exact .nil
  | @cons field value fields values hallows hlater ih =>
    obtain ⟨hfresh, hnodup⟩ := List.nodup_cons.mp hnodup
    have hmembers : membersOf (field :: fields) (value :: values) =
        ⟨field.name, valueText value⟩ :: membersOf fields values := rfl
    rw [hmembers]
    refine .cons (.single ?_ hallows) ?_
    · exact (Form.valuesOf_cons_self _ _).trans (congrArg _ (valuesOf_membersOf_of_notMem hfresh values))
    · have hothers := (List.forall₂_and_left fields values).mpr ⟨fun other hother => hother, ih hnodup⟩
      refine hothers.imp fun other value' ⟨hother, hadmits⟩ => ?_
      rwa [Form.valuesOf_cons_of_ne]
      exact fun heq => hfresh (List.mem_map.mpr ⟨other, hother, heq.symm⟩)

/-! ### Reading back -/

theorem tokens_text (hplain : form.Plain) (a : α) (rest : List Char) : tokens (form.text a ++ rest) =
    .openBrace :: (separated true ((membersOf form.fields (form.toValues a)).map Member.tokens) ++
      .closeBrace :: tokens rest) := by
  have htokens := tokens_object (membersText_membersOf hplain (form.toValues a))
    (fun member hmember => (valueText_membersOf _ _ member hmember).passable.lexed) rest
  rw [← htokens]
  simp [Form.text]

/-- A record is read back from its text wherever this stands. -/
theorem read_text (hform : form.Lawful) (hplain : form.Plain) (a : α) (rest : List Token) :
    form.read (tokens (form.text a) ++ rest) = .ok ⟨a, rest⟩ := by
  have htokens := tokens_text hplain a []
  rw [List.append_nil, tokens_nil] at htokens
  rw [htokens, List.cons_append, List.append_assoc]
  exact (Form.read_object_eq_ok_iff hform (valueText_membersOf _ _)).mpr
    ⟨admits_membersOf hform.nodup (hform.allows a), rfl⟩

theorem readElements_close (isFirst : Bool) (rest : List Token) :
    form.readElements isFirst (.closeBracket :: rest) = .ok ⟨[], rest⟩ := by
  rw [Form.readElements]

theorem readElements_of_ne {isFirst : Bool} {ts : List Token} (h : ∀ rest, ts ≠ .closeBracket :: rest) :
    form.readElements isFirst ts = form.readElement isFirst ts >>= fun taken =>
      (form.readElements false taken.rest).map fun later => ⟨taken.value :: later.value, later.rest⟩ := by
  rw [Form.readElements]
  · cases form.readElement isFirst ts <;> rfl
  · exact fun rest heq => h rest heq

/-- Records are read back one after another. -/
theorem readElements_text (hform : form.Lawful) (hplain : form.Plain) (isFirst : Bool) (as : List α)
    (rest : List Token) :
    form.readElements isFirst (separated isFirst (as.map fun a => tokens (form.text a)) ++ .closeBracket :: rest) =
      .ok ⟨as, rest⟩ := by
  induction as generalizing isFirst with
  | nil =>
    rw [List.map_nil, separated, List.nil_append]
    exact readElements_close isFirst rest
  | cons a as ih =>
    have helement : ∀ isFirst, form.readElement isFirst
        (separated isFirst ((a :: as).map fun a => tokens (form.text a)) ++ .closeBracket :: rest) =
        .ok ⟨a, separated false (as.map fun a => tokens (form.text a)) ++ .closeBracket :: rest⟩ := by
      intro isFirst
      have hread := read_text hform hplain a
        (separated false (as.map fun a => tokens (form.text a)) ++ .closeBracket :: rest)
      rw [← List.append_assoc] at hread
      cases isFirst <;> exact hread
    rw [readElements_of_ne, helement, bind_eq_ok_iff]
    · exact ⟨_, rfl, map_eq_ok_iff.mpr ⟨_, ih false, rfl⟩⟩
    · intro after hclose
      have htokens := tokens_text hplain a []
      rw [List.append_nil] at htokens
      rw [List.map_cons, htokens] at hclose
      cases isFirst <;> cases hclose

theorem readText_text (hform : form.Lawful) (hplain : form.Plain) (a : α) :
    readText form.read (String.ofList (form.text a)) = .ok a := by
  have hread := read_text hform hplain a []
  rw [List.append_nil] at hread
  rwa [readText_eq_ok_iff, String.toList_ofList]

theorem readText_listText (hform : form.Lawful) (hplain : form.Plain) (as : List α) :
    readText form.readList (String.ofList (form.listText as)) = .ok as := by
  have hitems : ∀ item ∈ as.map form.text, Lexed item :=
    List.forall_mem_map.mpr fun a _ => (valueText_text hplain a).passable.lexed
  have htokens := tokens_array (listed_commaSeparated (as.map form.text)) hitems []
  rw [tokens_nil, List.map_map] at htokens
  rw [readText_eq_ok_iff, String.toList_ofList, Form.listText, htokens]
  exact readElements_text hform hplain true as []

end Written

/-- A way of writing values that can be undone: what is written is read back, so that different values have different
    texts, and a value that has been read from any text is read again from what is written of it. -/
structure RoundTrips {α : Type} (write : α → List Char) (read : String → Except Problem α) : Prop where
  read_write : ∀ a, read (String.ofList (write a)) = .ok a
  write_injective : ∀ a b, write a = write b → a = b
  read_again : ∀ text a, read text = .ok a → read (String.ofList (write a)) = .ok a

theorem RoundTrips.of_read_write {α : Type} {write : α → List Char} {read : String → Except Problem α}
    (h : ∀ a, read (String.ofList (write a)) = .ok a) : RoundTrips write read where
  read_write := h
  write_injective a b heq := Except.ok.inj ((h a).symm.trans (heq ▸ h b))
  read_again _ a _ := h a

end Json

theorem Slot.form_plain : Slot.form.Plain := by decide

theorem Region.form_plain : Region.form.Plain := by decide

/-- Slots and regions, and lists of them, are read back from what is written of them. -/
theorem stored_layouts_round_trip :
    RoundTrips Slot.form.listText (readText Slot.form.readList) ∧
    RoundTrips Region.form.listText (readText Region.form.readList) ∧
    RoundTrips Slot.form.text (readText Slot.form.read) ∧ RoundTrips Region.form.text (readText Region.form.read) :=
  ⟨.of_read_write (readText_listText Slot.form_lawful Slot.form_plain),
    .of_read_write (readText_listText Region.form_lawful Region.form_plain),
    .of_read_write (readText_text Slot.form_lawful Slot.form_plain),
    .of_read_write (readText_text Region.form_lawful Region.form_plain)⟩

/-- A size of 0, no size, and the greatest count. -/
theorem stored_layouts_round_trip_extremes :
    String.ofList (Slot.form.listText [⟨some 0, 18446744073709551615, 1⟩, ⟨none, 7, 0⟩]) =
      "[\x7b\"size\":0,\"ratio\":18446744073709551615,\"minimum_size\":1\x7d," ++
        "\x7b\"size\":null,\"ratio\":7,\"minimum_size\":0\x7d]" ∧
    readText Slot.form.readList
        (String.ofList (Slot.form.listText [⟨some 0, 18446744073709551615, 1⟩, ⟨none, 7, 0⟩])) =
      .ok [⟨some 0, 18446744073709551615, 1⟩, ⟨none, 7, 0⟩] :=
  ⟨by decide, stored_layouts_round_trip.1.read_write _⟩

end Allotment
