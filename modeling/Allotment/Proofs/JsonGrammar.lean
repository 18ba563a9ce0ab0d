import Allotment.Cells
import Mathlib.Data.List.Forall2

/-! The grammar of JSON texts, apart from any reader. A text literal is spelled with characters as they are and with
    escapes; half of a pair of units is no spelling of a character. The members of an object keep their order, and the
    texts of their values. -/

namespace Allotment.Json

/-! ### Blanks and lists -/

/-- Characters that may stand between tokens. -/
def Blank (text : List Char) : Prop := ∀ c ∈ text, c ∈ [' ', '\t', '\n', '\r']

instance (text : List Char) : Decidable (Blank text) :=
  decidable_of_iff (text.all (· ∈ [' ', '\t', '\n', '\r']) = true) (by simp [Blank])

theorem Blank.nil : Blank [] := fun _ h => nomatch h

/-- Items with commas between them, and blanks on either side of each. -/
inductive Listed : List (List Char) → List Char → Prop
  | none {blank : List Char} (hblank : Blank blank) : Listed [] blank
  | last {before item after : List Char} (hbefore : Blank before) (hafter : Blank after) :
    Listed [item] (before ++ item ++ after)
  | more {before item after next rest : List Char} {items : List (List Char)} (hbefore : Blank before)
    (hafter : Blank after) (later : Listed (next :: items) rest) :
    Listed (item :: next :: items) (before ++ item ++ after ++ ',' :: rest)

/-! ### Numbers -/

/-- Digits, one at least. -/
def DigitsText (text : List Char) : Prop := text ≠ [] ∧ ∀ c ∈ text, c.isDigit = true

/-- A whole number without a sign: digits of which the first is not zero, or a zero alone. -/
def WholeText (text : List Char) : Prop := DigitsText text ∧ (text.head? = some '0' → text = ['0'])

/-- Nothing, or a point and digits. -/
inductive FractionText : List Char → Prop
  | none : FractionText []
  | some {ds : List Char} (h : DigitsText ds) : FractionText ('.' :: ds)

/-- Nothing, or a letter `e`, a sign that may be left out, and digits. -/
inductive ExponentText : List Char → Prop
  | none : ExponentText []
  | some {e : Char} {sign ds : List Char} (he : e ∈ ['e', 'E']) (hsign : sign ∈ [[], ['+'], ['-']])
    (h : DigitsText ds) : ExponentText (e :: sign ++ ds)

/-- A number: a minus sign that may be left out, a whole number, a fraction and an exponent. -/
inductive NumberText : List Char → Prop
  | mk {sign whole fraction exponent : List Char} (hsign : sign ∈ [[], ['-']]) (hwhole : WholeText whole)
    (hfraction : FractionText fraction) (hexponent : ExponentText exponent) :
    NumberText (sign ++ whole ++ fraction ++ exponent)

/-- A count: a whole number without sign, fraction and exponent that fits into 64 bits. -/
def CountText (text : List Char) (n : Cells) : Prop := WholeText text ∧ Nat.ofDigitChars 10 text 0 = n.toNat

instance (text : List Char) : Decidable (DigitsText text) :=
  decidable_of_iff (text ≠ [] ∧ text.all Char.isDigit = true) (by simp [DigitsText])

instance (text : List Char) : Decidable (WholeText text) :=
  inferInstanceAs (Decidable (DigitsText text ∧ (text.head? = some '0' → text = ['0'])))

instance (text : List Char) (n : Cells) : Decidable (CountText text n) :=
  inferInstanceAs (Decidable (WholeText text ∧ Nat.ofDigitChars 10 text 0 = n.toNat))

/-! ### Text literals -/

/-- The letters that stand for characters after a backslash. -/
def shorthands : List (Char × Char) :=
  [('"', '"'), ('\\', '\\'), ('/', '/'), ('b', '\x08'), ('f', '\x0c'), ('n', '\n'), ('r', '\r'), ('t', '\t')]

/-- A hexadecimal digit, of either case, and its value. -/
def HexDigit (c : Char) (value : Nat) : Prop :=
  "0123456789abcdef".toList[value]? = some c ∨ "0123456789ABCDEF".toList[value]? = some c

/-- An escaped 16-bit unit. -/
inductive UnitText : List Char → Nat → Prop
  | mk {a b c d : Char} {w x y z : Nat} (ha : HexDigit a w) (hb : HexDigit b x) (hc : HexDigit c y)
    (hd : HexDigit d z) : UnitText ['\\', 'u', a, b, c, d] (((w * 16 + x) * 16 + y) * 16 + z)

/-- A character that may be written as it is. -/
def isPlain (c : Char) : Bool := 0x20 ≤ c.toNat && c ≠ '"' && c ≠ '\\'

/-- Characters and the way they are written between quotes. -/
inductive Spelled : List Char → List Char → Prop
  | nil : Spelled [] []
  | plain {c : Char} {value written : List Char} (h : isPlain c = true) (later : Spelled value written) :
    Spelled (c :: value) (c :: written)
  | shorthand {letter c : Char} {value written : List Char} (h : (letter, c) ∈ shorthands)
    (later : Spelled value written) : Spelled (c :: value) ('\\' :: letter :: written)
  | unit {c : Char} {digits value written : List Char} (h : UnitText digits c.toNat)
    (later : Spelled value written) : Spelled (c :: value) (digits ++ written)
  | pair {c : Char} {high low : Nat} {first second value written : List Char} (hhigh : high < 0x400)
    (hlow : low < 0x400) (hfirst : UnitText first (0xd800 + high)) (hsecond : UnitText second (0xdc00 + low))
    (hc : c.toNat = 0x10000 + high * 0x400 + low) (later : Spelled value written) :
    Spelled (c :: value) (first ++ second ++ written)

/-- Plain characters are written as they are. -/
theorem Spelled.of_plain {value : List Char} (h : value.all isPlain = true) : Spelled value value := by
  induction value with
  | nil => exact .nil
  | cons c value ih =>
    rw [List.all_cons, Bool.and_eq_true] at h
    exact .plain h.1 (ih h.2)

/-! ### Values -/

/-- A member of an object: its key, and its value as it is written. -/
structure Member where
  key : String
  value : List Char

/-- A key between quotes, a colon and a value. -/
inductive MemberText : Member → List Char → Prop
  | mk {member : Member} {key before after : List Char} (hkey : Spelled member.key.toList key)
    (hbefore : Blank before) (hafter : Blank after) :
    MemberText member ('"' :: key ++ '"' :: before ++ ':' :: after ++ member.value)

/-- A member without blanks. -/
theorem MemberText.bare {key : String} {written : List Char} (hkey : Spelled key.toList written) (value : List Char) :
    MemberText ⟨key, value⟩ ('"' :: written ++ '"' :: ':' :: value) := by
  simpa using (.mk hkey .nil .nil : MemberText ⟨key, value⟩ _)

/-- Members one after another. -/
inductive MembersText : List Member → List Char → Prop
  | mk {members : List Member} {texts : List (List Char)} {text : List Char}
    (hmembers : List.Forall₂ MemberText members texts) (hlisted : Listed texts text) : MembersText members text

/-- A value. -/
inductive ValueText : List Char → Prop
  | null : ValueText "null".toList
  | bool {text : List Char} (h : text ∈ ["true".toList, "false".toList]) : ValueText text
  | number {text : List Char} (h : NumberText text) : ValueText text
  | text {value written : List Char} (h : Spelled value written) : ValueText ('"' :: written ++ ['"'])
  | array {items : List (List Char)} {inner : List Char} (h : Listed items inner)
    (hitems : ∀ item ∈ items, ValueText item) : ValueText ('[' :: inner ++ [']'])
  | object {members : List Member} {inner : List Char} (h : MembersText members inner)
    (hvalues : ∀ member ∈ members, ValueText member.value) : ValueText ('\x7b' :: inner ++ ['\x7d'])

/-- A text that is an object with these members, and blanks on either side. -/
inductive ObjectText : List Member → List Char → Prop
  | mk {members : List Member} {before inner after : List Char} (hbefore : Blank before) (hafter : Blank after)
    (h : MembersText members inner) (hvalues : ∀ member ∈ members, ValueText member.value) :
    ObjectText members (before ++ '\x7b' :: inner ++ '\x7d' :: after)

/-- A text that is an array of these items, and blanks on either side. -/
inductive ArrayText : List (List Char) → List Char → Prop
  | mk {items : List (List Char)} {before inner after : List Char} (hbefore : Blank before) (hafter : Blank after)
    (h : Listed items inner) (hitems : ∀ item ∈ items, ValueText item) :
    ArrayText items (before ++ '[' :: inner ++ ']' :: after)

/-- The texts of the values that the members of a key have, in the order of the members. -/
def valuesOf (key : String) (members : List Member) : List (List Char) :=
  (members.filter (·.key = key)).map Member.value

end Allotment.Json
