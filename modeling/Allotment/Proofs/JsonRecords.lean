import Allotment.Json.Layout
import Allotment.Proofs.JsonMembers

/-! Records read from objects and arrays. A record is read from an object exactly where each field has one member with a
    value that it may have, or is optional and has none; and from an array of just the values of its fields. -/

namespace Allotment.Json
namespace Form
variable {α : Type} {form : Form α}

/-! ### Values of all fields -/

/-- The values `texts` that the members of a field have, and the value that is read of them. -/
inductive Admits (field : Field) (texts : List (List Char)) : Option Cells → Prop
  | single {value : Option Cells} (h : texts = [valueText value]) (hallows : field.Allows value) :
    Admits field texts value
  | absent (h : texts = []) (hoptional : field.optional = true) : Admits field texts none

section Records
variable {members : List Member} {items : List (List Char)} {rest : List Token} {a : α}

theorem Outcome.admits_iff {field : Field} {texts : List (List Char)} {after : Option (Option Cells)}
    {value : Option Cells} (h : Outcome field texts none after) :
    (after = some value ∨ after = none ∧ field.optional = true ∧ value = none) ↔ Admits field texts value := by
  cases h with
  | kept h =>
    constructor
    · rintro (hnone | ⟨-, hoptional, rfl⟩)
      · exact nomatch hnone
      · exact .absent h hoptional
    · rintro (⟨hsingle, -⟩ | ⟨-, hoptional⟩)
      · exact nomatch h.symm.trans hsingle
      · exact Or.inr ⟨rfl, hoptional, rfl⟩
  | @filled other h hallows =>
    constructor
    · rintro (hvalue | ⟨hnone, -⟩)
      · obtain rfl := Option.some.inj hvalue
        exact .single h hallows
      · exact nomatch hnone
    · rintro (⟨hsingle, -⟩ | ⟨hnone, -⟩)
      · rw [valueText_injective (List.singleton_inj.mp (h.symm.trans hsingle))]
        exact Or.inl rfl
      · exact nomatch h.symm.trans hnone

theorem Admits.exists_outcome {field : Field} {texts : List (List Char)} {value : Option Cells}
    (h : Admits field texts value) : ∃ after, Outcome field texts none after := by
  cases h with
  | single h hallows => exact ⟨_, .filled h hallows⟩
  | absent h => exact ⟨_, .kept h⟩

theorem complete_eq_ok_iff {found : Found} {values : List (Option Cells)} : form.complete found = .ok values ↔
    List.Forall₂ (fun field value => found.lookup field.name = some value ∨
      found.lookup field.name = none ∧ field.optional = true ∧ value = none) form.fields values := by
  rw [complete, mapM_eq_ok_iff]
  constructor
  · refine List.Forall₂.imp fun field value h => ?_
    split at h
    · next hlookup => exact Or.inl (hlookup.trans (congrArg some (Except.ok.inj h)))
    · next hlookup =>
      split at h
      · next hoptional => exact Or.inr ⟨hlookup, hoptional, (Except.ok.inj h).symm⟩
      · cases h
  · refine List.Forall₂.imp fun field value h => ?_
    rcases h with hlookup | ⟨hlookup, hoptional, rfl⟩
    · rw [hlookup]
    · rw [hlookup]
      exact if_pos hoptional

/-- An object is read as a record exactly where each field admits the values of its members. -/
theorem readValues_object_eq_ok_iff (hform : form.Lawful) (hvalues : ∀ member ∈ members, ValueText member.value)
    {taken : Taken (List (Option Cells))} :
    form.readValues (.openBrace :: (separated true (members.map Member.tokens) ++ .closeBrace :: rest)) = .ok taken ↔
      List.Forall₂ (fun field value => Admits field (valuesOf field.name members) value) form.fields taken.value ∧
        taken.rest = rest := by
  have hread : form.readValues (.openBrace :: (separated true (members.map Member.tokens) ++ .closeBrace :: rest)) =
      form.readMembers [] true (separated true (members.map Member.tokens) ++ .closeBrace :: rest) >>= fun found =>
        form.complete found.value >>= fun values => pure ⟨values, found.rest⟩ := rfl
  rw [hread, bind_eq_ok_iff]
  constructor
  · rintro ⟨found, hmembers, hrest⟩
    obtain ⟨values, hcomplete, ⟨⟩⟩ := bind_eq_ok_iff.mp hrest
    obtain ⟨hsteps, hrest⟩ := (readMembers_eq_ok_iff hvalues).mp hmembers
    refine ⟨?_, hrest⟩
    have houtcomes := (List.forall₂_and_left form.fields values).mpr
      ⟨fun field hfield => hsteps.outcome hform hfield, complete_eq_ok_iff.mp hcomplete⟩
    exact houtcomes.imp fun field value h => h.1.admits_iff.mp h.2
  · rintro ⟨hadmits, rfl⟩
    have hfields : ∀ field ∈ form.fields, ∃ after, Outcome field (valuesOf field.name members) none after :=
      ((List.forall₂_and_left form.fields taken.value).mp (hadmits.imp fun _ _ h => ⟨h.exists_outcome, h⟩)).1
    obtain ⟨last, hsteps⟩ : ∃ last, form.Steps [] members last := exists_steps hform hfields
    have houtcomes := (List.forall₂_and_left form.fields taken.value).mpr
      ⟨fun field hfield => hsteps.outcome hform hfield, hadmits⟩
    have hcomplete : form.complete last = .ok taken.value :=
      complete_eq_ok_iff.mpr (houtcomes.imp fun field value h => h.1.admits_iff.mpr h.2)
    exact ⟨⟨last, taken.rest⟩, (readMembers_eq_ok_iff hvalues).mpr ⟨hsteps, rfl⟩,
      bind_eq_ok_iff.mpr ⟨taken.value, hcomplete, rfl⟩⟩

theorem readItems_item {field : Field} {fields : List Field} {count : Nat} {item : List Char} {token : Token}
    {more : List Token} {tss : List (List Token)} (htokens : tokens item = token :: more)
    (hne : token ≠ .closeBracket) :
    form.readItems count (field :: fields) (separated (count = 0) (tokens item :: tss) ++ rest) =
      field.read token >>= fun value =>
        form.readItems (count + 1) fields (more ++ (separated false tss ++ rest)) >>= fun later =>
          pure ⟨value :: later.value, later.rest⟩ := by
  rw [htokens]
  cases count with
  | zero =>
    rw [decide_eq_true rfl, separated, List.append_assoc, List.cons_append, readItems]
    · rfl
    · exact fun _ heq => hne (List.cons.inj heq).1
  | succ count =>
    rw [decide_eq_false (Nat.succ_ne_zero count), separated, List.cons_append, List.append_assoc, List.cons_append,
      readItems]
    · rfl
    · rintro _ ⟨⟩

theorem closeBracket_of_readItems_nil {count : Nat} {ts : List Token} {taken : Taken (List (Option Cells))}
    (h : form.readItems count [] ts = .ok taken) : ∃ rest, ts = .closeBracket :: rest := by
  unfold readItems at h
  split at h
  · exact ⟨_, rfl⟩
  · exact nomatch h
  · exact nomatch h
  · next hfields _ => exact nomatch hfields

theorem readItems_eq_ok_iff {fields : List Field} {count : Nat} (hitems : ∀ item ∈ items, ValueText item)
    {taken : Taken (List (Option Cells))} :
    form.readItems count fields (separated (count = 0) (items.map tokens) ++ .closeBracket :: rest) = .ok taken ↔
      (items = taken.value.map valueText ∧ List.Forall₂ Field.Allows fields taken.value) ∧ taken.rest = rest := by
  induction fields generalizing items count taken with
  | nil =>
    rw [List.forall₂_nil_left_iff]
    cases items with
    | nil =>
      obtain ⟨values, after⟩ := taken
      constructor
      · rintro ⟨⟩
        exact ⟨⟨rfl, rfl⟩, rfl⟩
      · rintro ⟨⟨-, rfl⟩, rfl⟩
        rfl
    | cons item items =>
      refine iff_of_false (fun h => ?_) fun ⟨⟨hmap, hnil⟩, _⟩ => ?_
      · obtain ⟨token, more, htokens, hne, -⟩ := (hitems item List.mem_cons_self).read
        obtain ⟨after, hclose⟩ := closeBracket_of_readItems_nil h
        rw [List.map_cons, htokens] at hclose
        cases count with
        | zero => exact hne (List.cons.inj hclose).1
        | succ => exact nomatch hclose
      · rw [hnil] at hmap
        exact nomatch hmap
  | cons field fields ih =>
    cases items with
    | nil =>
      refine iff_of_false (fun h => ?_) fun ⟨⟨hmap, hfields⟩, _⟩ => ?_
      · exact nomatch h
      · rw [List.map_eq_nil_iff.mp hmap.symm] at hfields
        exact nomatch hfields
    | cons item items =>
      obtain ⟨hitem, hitems⟩ := List.forall_mem_cons.mp hitems
      obtain ⟨token, more, htokens, hne, hread⟩ := hitem.read
      rw [List.map_cons, readItems_item htokens hne, bind_eq_ok_iff]
      constructor
      · rintro ⟨value, hvalue, h⟩
        obtain ⟨later, hlater, ⟨⟩⟩ := bind_eq_ok_iff.mp h
        obtain ⟨rfl, htext, hallows⟩ := (hread field value).mp hvalue
        obtain ⟨⟨hmap, hfields⟩, hrest⟩ := (ih hitems).mp hlater
        exact ⟨⟨List.cons_eq_cons.mpr ⟨htext, hmap⟩, .cons hallows hfields⟩, hrest⟩
      · obtain ⟨values, after⟩ := taken
        rintro ⟨⟨hmap, hfields⟩, rfl⟩
        cases hfields with
        | @cons _ value _ values hallows hfields =>
          obtain ⟨htext, hmap⟩ := List.cons.inj hmap
          rw [htext, tokens_valueText] at htokens
          obtain ⟨rfl, rfl⟩ := List.cons.inj htokens
          exact ⟨value, (hread field value).mpr ⟨rfl, htext, hallows⟩,
            bind_eq_ok_iff.mpr ⟨⟨values, after⟩, (ih hitems).mpr ⟨⟨hmap, hfields⟩, rfl⟩, rfl⟩⟩

/-- An array is read as a record exactly where its items are the values of the fields. -/
theorem readValues_array_eq_ok_iff (hitems : ∀ item ∈ items, ValueText item) {taken : Taken (List (Option Cells))} :
    form.readValues (.openBracket :: (separated true (items.map tokens) ++ .closeBracket :: rest)) = .ok taken ↔
      (items = taken.value.map valueText ∧ List.Forall₂ Field.Allows form.fields taken.value) ∧ taken.rest = rest :=
  readItems_eq_ok_iff hitems

/-! ### Records and whole texts -/

theorem read_eq_ok_iff (hform : form.Lawful) {ts : List Token} {taken : Taken α} :
    form.read ts = .ok taken ↔ form.readValues ts = .ok ⟨form.toValues taken.value, taken.rest⟩ := by
  rw [read, bind_eq_ok_iff]
  constructor
  · rintro ⟨values, hvalues, h⟩
    cases hmade : form.ofValues? values.value with
    | none =>
      rw [hmade] at h
      exact nomatch h
    | some a =>
      rw [hmade] at h
      obtain rfl := Except.ok.inj h
      rw [hvalues, ← hform.eq_toValues hmade]
  · intro h
    refine ⟨_, h, ?_⟩
    rw [form.ofValues?_toValues]
    rfl

theorem read_object_eq_ok_iff (hform : form.Lawful) (hvalues : ∀ member ∈ members, ValueText member.value)
    {taken : Taken α} :
    form.read (.openBrace :: (separated true (members.map Member.tokens) ++ .closeBrace :: rest)) = .ok taken ↔
      List.Forall₂ (fun field value => Admits field (valuesOf field.name members) value) form.fields
        (form.toValues taken.value) ∧ taken.rest = rest := by
  rw [read_eq_ok_iff hform, readValues_object_eq_ok_iff hform hvalues]

theorem read_array_eq_ok_iff (hform : form.Lawful) (hitems : ∀ item ∈ items, ValueText item) {taken : Taken α} :
    form.read (.openBracket :: (separated true (items.map tokens) ++ .closeBracket :: rest)) = .ok taken ↔
      items = (form.toValues taken.value).map valueText ∧ taken.rest = rest := by
  rw [read_eq_ok_iff hform, readValues_array_eq_ok_iff hitems, and_iff_left (hform.allows taken.value)]

end Records
end Form

theorem readText_eq_ok_iff {α : Type} {read : List Token → Except Problem (Taken α)} {text : String} {a : α} :
    readText read text = .ok a ↔ read (tokens text.toList) = .ok ⟨a, []⟩ := by
  rw [readText, bind_eq_ok_iff]
  constructor
  · rintro ⟨⟨value, rest⟩, hread, h⟩
    cases rest with
    | nil =>
      obtain rfl := Except.ok.inj h
      exact hread
    | cons => exact nomatch h
  · exact fun h => ⟨_, h, rfl⟩

section Texts
variable {α : Type} {form : Form α} {members : List Member} {items : List (List Char)} {text : String} {a : α}

theorem tokens_blank {blank : List Char} (h : Blank blank) : tokens blank = [] := by
  have htokens := tokens_blank_append h []
  rwa [List.append_nil, tokens_nil] at htokens

/-- A text that is an object is read as a record exactly where each field admits the values of its members. -/
theorem ObjectText.readText_eq_ok_iff (hform : form.Lawful) (h : ObjectText members text.toList) :
    readText form.read text = .ok a ↔
      List.Forall₂ (fun field value => Form.Admits field (valuesOf field.name members) value) form.fields
        (form.toValues a) := by
  rw [Json.readText_eq_ok_iff]
  generalize text.toList = chars at h
  obtain ⟨hbefore, hafter, hmembers, hvalues⟩ := h
  have hobject := tokens_object hmembers (fun member hmember => (hvalues member hmember).passable.lexed)
  rw [List.append_assoc, tokens_blank_append hbefore, hobject, tokens_blank hafter,
    Form.read_object_eq_ok_iff hform hvalues, and_iff_left rfl]

/-- A text that is an array is read as a record exactly where its items are the values of the fields. -/
theorem ArrayText.readText_eq_ok_iff (hform : form.Lawful) (h : ArrayText items text.toList) :
    readText form.read text = .ok a ↔ items = (form.toValues a).map valueText := by
  rw [Json.readText_eq_ok_iff]
  generalize text.toList = chars at h
  obtain ⟨hbefore, hafter, hlisted, hitems⟩ := h
  rw [List.append_assoc, tokens_blank_append hbefore,
    tokens_array hlisted (fun item hitem => (hitems item hitem).passable.lexed), tokens_blank hafter,
    Form.read_array_eq_ok_iff hform hitems, and_iff_left rfl]

end Texts
end Allotment.Json

namespace Allotment
open Json

theorem Slot.form_lawful : Slot.form.Lawful where
  nodup := by decide
  eq_toValues {values slot} h := by
    match values, h with
    | [_, some _, some _], h => cases h; rfl
  allows _ := .cons (fun _ => rfl) (.cons nofun (.cons nofun .nil))

theorem Region.form_lawful : Region.form.Lawful where
  nodup := by decide
  eq_toValues {values region} h := by
    match values, h with
    | [some _, some _, some _, some _], h => cases h; rfl
  allows _ := .cons nofun (.cons nofun (.cons nofun (.cons nofun .nil)))

end Allotment
