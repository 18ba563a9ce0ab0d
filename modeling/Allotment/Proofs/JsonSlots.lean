import Allotment.Proofs.JsonRecords

/-! Slots read from objects and arrays. The ratio and the minimum must be there once, as counts; the size may be missing
    or null. Whatever else an object holds, and in whatever order, is of no account. -/

namespace Allotment
open Json
namespace Slot

/-- A size that is written as null or as a count. -/
def SizeText (text : List Char) : Option Cells → Prop
  | none => text = "null".toList
  | some n => CountText text n

/-- A slot that the members of an object say: each key but the size has one member, and its value is a count. -/
structure SaidBy (members : List Member) (slot : Slot) : Prop where
  ratio : ∃ text, valuesOf "ratio" members = [text] ∧ CountText text slot.ratio
  minimumSize : ∃ text, valuesOf "minimum_size" members = [text] ∧ CountText text slot.minimumSize
  size : valuesOf "size" members = [] ∧ slot.size = none ∨
    ∃ text, valuesOf "size" members = [text] ∧ SizeText text slot.size

section Object
variable {members : List Member} {text : String} {slot : Slot}

theorem sizeText_iff {text : List Char} {size : Option Cells} : SizeText text size ↔ text = valueText size := by
  cases size with
  | none => exact Iff.rfl
  | some n => exact countText_iff

theorem admits_some_iff {field : Field} {texts : List (List Char)} {n : Cells} :
    Form.Admits field texts (some n) ↔ ∃ text, texts = [text] ∧ CountText text n := by
  constructor
  · rintro ⟨h, -⟩
    exact ⟨_, h, countText_iff.mpr rfl⟩
  · rintro ⟨text, h, hcount⟩
    rw [countText_iff.mp hcount] at h
    exact .single h nofun

theorem admits_size_iff {name : String} {texts : List (List Char)} {size : Option Cells} :
    Form.Admits ⟨name, true⟩ texts size ↔ texts = [] ∧ size = none ∨ ∃ text, texts = [text] ∧ SizeText text size := by
  constructor
  · rintro (⟨h, -⟩ | ⟨h, -⟩)
    · exact Or.inr ⟨_, h, sizeText_iff.mpr rfl⟩
    · exact Or.inl ⟨h, rfl⟩
  · rintro (⟨h, rfl⟩ | ⟨text, h, hsize⟩)
    · exact .absent h rfl
    · rw [sizeText_iff.mp hsize] at h
      exact .single h fun _ => rfl

theorem readText_eq_ok_iff_saidBy (h : ObjectText members text.toList) :
    readText form.read text = .ok slot ↔ SaidBy members slot := by
  rw [h.readText_eq_ok_iff form_lawful]
  simp only [form, List.forall₂_cons, List.forall₂_nil_left_iff]
  rw [admits_size_iff, admits_some_iff, admits_some_iff]
  exact ⟨fun ⟨hsize, hratio, hminimum, _⟩ => ⟨hratio, hminimum, hsize⟩,
    fun ⟨hratio, hminimum, hsize⟩ => ⟨hsize, hratio, hminimum, trivial⟩⟩

theorem exists_saidBy_iff : (∃ slot, SaidBy members slot) ↔
    (∃ text n, valuesOf "ratio" members = [text] ∧ CountText text n) ∧
    (∃ text n, valuesOf "minimum_size" members = [text] ∧ CountText text n) ∧
    (valuesOf "size" members = [] ∨ ∃ text size, valuesOf "size" members = [text] ∧ SizeText text size) := by
  constructor
  · rintro ⟨slot, ⟨ratioText, hratio, hratioCount⟩, ⟨minimumText, hminimum, hminimumCount⟩, hsize⟩
    exact ⟨⟨ratioText, _, hratio, hratioCount⟩, ⟨minimumText, _, hminimum, hminimumCount⟩,
      hsize.imp And.left fun ⟨text, htext, hsize⟩ => ⟨text, _, htext, hsize⟩⟩
  · rintro ⟨⟨ratioText, ratio, hratio⟩, ⟨minimumText, minimum, hminimum⟩, hnone | ⟨sizeText, size, hsize⟩⟩
    · exact ⟨⟨none, ratio, minimum⟩, ⟨_, hratio⟩, ⟨_, hminimum⟩, Or.inl ⟨hnone, rfl⟩⟩
    · exact ⟨⟨size, ratio, minimum⟩, ⟨_, hratio⟩, ⟨_, hminimum⟩, Or.inr ⟨_, hsize⟩⟩

theorem SaidBy.congr {others : List Member} (h : SaidBy members slot)
    (hratio : valuesOf "ratio" others = valuesOf "ratio" members)
    (hminimum : valuesOf "minimum_size" others = valuesOf "minimum_size" members)
    (hsize : valuesOf "size" others = valuesOf "size" members) : SaidBy others slot where
  ratio := hratio ▸ h.ratio
  minimumSize := hminimum ▸ h.minimumSize
  size := hsize ▸ h.size

theorem saidBy_iff_items {sizeText ratioText minimumText : List Char}
    (hsize : valuesOf "size" members = [sizeText] ∨ valuesOf "size" members = [] ∧ sizeText = "null".toList)
    (hratio : valuesOf "ratio" members = [ratioText]) (hminimum : valuesOf "minimum_size" members = [minimumText]) :
    SaidBy members slot ↔ [sizeText, ratioText, minimumText] = (form.toValues slot).map valueText := by
  have hitems : [sizeText, ratioText, minimumText] = (form.toValues slot).map valueText ↔
      SizeText sizeText slot.size ∧ CountText ratioText slot.ratio ∧ CountText minimumText slot.minimumSize := by
    rw [sizeText_iff, countText_iff, countText_iff]
    simp [form, valueText]
  rw [hitems]
  constructor
  · rintro ⟨⟨_, hratio', hratioCount⟩, ⟨_, hminimum', hminimumCount⟩, hsize'⟩
    obtain rfl := List.singleton_inj.mp (hratio.symm.trans hratio')
    obtain rfl := List.singleton_inj.mp (hminimum.symm.trans hminimum')
    refine ⟨?_, hratioCount, hminimumCount⟩
    rcases hsize with hsize | ⟨hnone, rfl⟩
    · rcases hsize' with ⟨hnone, -⟩ | ⟨_, hone, hsizeText⟩
      · exact nomatch hsize.symm.trans hnone
      · rwa [List.singleton_inj.mp (hsize.symm.trans hone)]
    · rcases hsize' with ⟨-, hsize'⟩ | ⟨_, hone, -⟩
      · rw [hsize']
        rfl
      · exact nomatch hnone.symm.trans hone
  · rintro ⟨hsizeText, hratioCount, hminimumCount⟩
    refine ⟨⟨_, hratio, hratioCount⟩, ⟨_, hminimum, hminimumCount⟩, ?_⟩
    rcases hsize with hsize | ⟨hnone, rfl⟩
    · exact Or.inr ⟨_, hsize, hsizeText⟩
    · exact Or.inl ⟨hnone, valueText_injective (sizeText_iff.mp hsizeText).symm⟩

end Object

/-- An object is read as a slot exactly where its ratio and its minimum are there once, as counts, and its size once at
    most, as null or a count. The slot depends on nothing else, and is that of the array of the three values. -/
theorem readText_object {members : List Member} {text : String} (h : ObjectText members text.toList) :
    (∀ slot, readText form.read text = .ok slot ↔ SaidBy members slot) ∧
    ((∃ slot, readText form.read text = .ok slot) ↔
      (∃ written n, valuesOf "ratio" members = [written] ∧ CountText written n) ∧
      (∃ written n, valuesOf "minimum_size" members = [written] ∧ CountText written n) ∧
      (valuesOf "size" members = [] ∨ ∃ written size, valuesOf "size" members = [written] ∧ SizeText written size)) ∧
    (∀ (others : List Member) (other : String), ObjectText others other.toList →
      valuesOf "ratio" others = valuesOf "ratio" members →
      valuesOf "minimum_size" others = valuesOf "minimum_size" members →
      valuesOf "size" others = valuesOf "size" members →
      ∀ slot, readText form.read other = .ok slot ↔ readText form.read text = .ok slot) ∧
    ∀ (sizeText ratioText minimumText : List Char) (array : String),
      ArrayText [sizeText, ratioText, minimumText] array.toList →
      (valuesOf "size" members = [sizeText] ∨ valuesOf "size" members = [] ∧ sizeText = "null".toList) →
      valuesOf "ratio" members = [ratioText] → valuesOf "minimum_size" members = [minimumText] →
      ∀ slot, readText form.read array = .ok slot ↔ readText form.read text = .ok slot := by
  have hread : ∀ slot, readText form.read text = .ok slot ↔ SaidBy members slot :=
    fun slot => readText_eq_ok_iff_saidBy h
  refine ⟨hread, ?_, ?_, ?_⟩
  · rw [← exists_saidBy_iff]
    exact exists_congr hread
  · intro others other hother hratio hminimum hsize slot
    rw [hread, readText_eq_ok_iff_saidBy hother]
    exact ⟨fun h => h.congr hratio.symm hminimum.symm hsize.symm, fun h => h.congr hratio hminimum hsize⟩
  · intro sizeText ratioText minimumText array harray hsize hratio hminimum slot
    rw [hread, harray.readText_eq_ok_iff form_lawful, saidBy_iff_items hsize hratio hminimum]

/-- An object with an escaped key, blanks, and a member that is passed over. -/
def notedText : String :=
  "\x7b \"minimum_size\" : 18446744073709551615 ,\"note\":[1,\x7b\"ratio\":-2.5E+3\x7d],\"rati\\u006f\":7 \x7d"

/-- Its members. -/
def noted : List Member :=
  [⟨"minimum_size", "18446744073709551615".toList⟩, ⟨"note", "[1,\x7b\"ratio\":-2.5E+3\x7d]".toList⟩,
    ⟨"ratio", "7".toList⟩]

theorem objectText_noted : ObjectText noted notedText.toList := by
  have hescape : UnitText "\\u006f".toList 'o'.toNat :=
    (.mk (Or.inl rfl) (Or.inl rfl) (Or.inl rfl) (Or.inl rfl) :
      UnitText ['\\', 'u', '0', '0', '6', 'f'] (((0 * 16 + 0) * 16 + 6) * 16 + 15))
  have hescaped : Spelled "ratio".toList "rati\\u006f".toList :=
    .plain (by decide) (.plain (by decide) (.plain (by decide) (.plain (by decide) (.unit hescape .nil))))
  have hwhole : ∀ text ∈ ["1", "7", "18446744073709551615"], ValueText text.toList := fun text h =>
    .number (.of_wholeText ((by decide : ∀ text ∈ ["1", "7", "18446744073709551615"], WholeText text.toList) text h))
  have hnumber : NumberText "-2.5E+3".toList :=
    (.mk (by simp) (by decide) (.some (by decide)) (.some (by simp) (by simp) (by decide)) :
      NumberText (['-'] ++ ['2'] ++ ['.', '5'] ++ ('E' :: ['+'] ++ ['3'])))
  have hinner : ValueText "\x7b\"ratio\":-2.5E+3\x7d".toList := by
    have hkey : Spelled "ratio".toList "ratio".toList := .of_plain (by decide)
    exact .object (.mk (.cons (.bare hkey "-2.5E+3".toList) .nil) (.last .nil .nil))
      (by simpa using ValueText.number hnumber)
  have hnote : ValueText "[1,\x7b\"ratio\":-2.5E+3\x7d]".toList :=
    .array (.more .nil .nil (.last .nil .nil) : Listed ["1".toList, "\x7b\"ratio\":-2.5E+3\x7d".toList] _)
      (by simpa using ⟨hwhole "1" (by simp), hinner⟩)
  have hspace : Blank [' '] := by decide
  have hmembers : MembersText noted (" \"minimum_size\" : 18446744073709551615 ,".toList ++
      "\"note\":[1,\x7b\"ratio\":-2.5E+3\x7d],\"rati\\u006f\":7 ".toList) :=
    .mk (.cons (.mk (.of_plain (by decide)) hspace hspace)
      (.cons (.bare (.of_plain (by decide)) _) (.cons (.bare hescaped _) .nil)))
      (.more hspace hspace (.more .nil .nil (.last .nil hspace)))
  have hvalues : ∀ member ∈ noted, ValueText member.value := by
    simpa [noted] using ⟨hwhole "18446744073709551615" (by simp), hnote, hwhole "7" (by simp)⟩
  exact .mk .nil .nil hmembers hvalues

/-- The escaped key is the ratio, the size is missing, and the minimum is the greatest count. -/
theorem readText_object_noted : readText form.read notedText = .ok ⟨none, 7, 18446744073709551615⟩ :=
  ((readText_object objectText_noted).1 _).mpr
    ⟨⟨_, rfl, by decide⟩, ⟨_, rfl, by decide⟩, Or.inl ⟨rfl, rfl⟩⟩

end Slot
end Allotment
