import Allotment.Error
import Allotment.Json.Record
import Allotment.Proofs.JsonValues

/-! Members of objects as they are read for a record. Each fills one field that had no value, or is passed over. So
    all of them can be read exactly where no field has more than one, and what a field gets does not depend on the
    others. -/

namespace Allotment.Json

/-! ### Readers that succeed -/

section Except
variable {ε α β : Type}

/-- A list is read item by item. -/
theorem mapM_eq_ok_iff {f : α → Except ε β} {as : List α} {bs : List β} :
    as.mapM f = .ok bs ↔ List.Forall₂ (fun a b => f a = .ok b) as bs := by
  induction as generalizing bs with
  | nil =>
    rw [List.mapM_nil, List.forall₂_nil_left_iff]
    exact ⟨fun h => (Except.ok.inj h).symm, fun h => h ▸ rfl⟩
  | cons a as ih =>
    rw [List.mapM_cons, bind_eq_ok_iff, List.forall₂_cons_left_iff]
    constructor
    · rintro ⟨b, hb, h⟩
      obtain ⟨bs, hbs, h⟩ := bind_eq_ok_iff.mp h
      exact ⟨b, bs, hb, ih.mp hbs, (Except.ok.inj h).symm⟩
    · rintro ⟨b, bs, hb, hbs, rfl⟩
      exact ⟨b, hb, bind_eq_ok_iff.mpr ⟨bs, ih.mpr hbs, rfl⟩⟩

end Except

/-! ### Values of fields -/

/-- The token of a field's value. -/
def valueToken : Option Cells → Token
  | none => .null
  | some n => .number (some (.natural n))

/-- A value that a field may have. -/
def Field.Allows (field : Field) (value : Option Cells) : Prop := value = none → field.optional = true

section Values
variable {text : List Char} {value : Option Cells} {token : Token}

theorem countText_toDigits (n : Cells) : CountText (valueText (some n)) n := countText_iff.mpr rfl

theorem NumberText.of_wholeText (h : WholeText text) : NumberText text := by
  have htext := NumberText.mk (List.mem_cons_self) h .none .none
  rwa [List.nil_append, List.append_nil, List.append_nil] at htext

theorem valueText_value (value : Option Cells) : ValueText (valueText value) := by
  cases value with
  | none => exact .null
  | some n => exact .number (.of_wholeText (countText_toDigits n).1)

theorem tokens_valueText (value : Option Cells) : tokens (valueText value) = [valueToken value] := by
  cases value with
  | none => exact tokens_eq_singleton fun rest _ => tokens_null rest
  | some n =>
    obtain ⟨number, htokens, hnatural⟩ := tokens_number (.of_wholeText (countText_toDigits n).1)
    rw [tokens_eq_singleton htokens, (hnatural n).mpr (countText_toDigits n)]
    rfl

theorem valueToken_injective {other : Option Cells} (h : valueToken value = valueToken other) : value = other := by
  cases value <;> cases other <;> simp_all [valueToken]

theorem valueText_injective {other : Option Cells} (h : valueText value = valueText other) : value = other := by
  have htokens := tokens_valueText value
  rw [h, tokens_valueText other] at htokens
  exact valueToken_injective (List.singleton_inj.mp htokens).symm

/-- A value starts with a token that ends no array, and with that of a field's value only where it is the text of
    this. -/
theorem ValueText.exists_token (h : ValueText text) : ∃ token more, tokens text = token :: more ∧
    token ≠ .closeBracket ∧ ∀ value, token = valueToken value → text = valueText value := by
  -- Nothing but null and numbers starts with the token of a field's value.
  have hother : ∀ {token : Token}, token ≠ .null → (∀ number, token ≠ .number number) →
      ∀ value, token = valueToken value → text = valueText value := by
    intro token hnull hnumber value hvalue
    cases value with
    | none => exact absurd hvalue hnull
    | some n => exact absurd hvalue (hnumber _)
  cases h with
  | null =>
    refine ⟨_, _, tokens_eq_singleton fun rest _ => tokens_null rest, nofun, fun value hvalue => ?_⟩
    cases value with
    | none => rfl
    | some n => exact nomatch hvalue
  | bool h =>
    obtain ⟨b, htokens⟩ := tokens_bool h
    exact ⟨_, _, tokens_eq_singleton fun rest _ => htokens rest, nofun, hother nofun nofun⟩
  | number h =>
    obtain ⟨number, htokens, hnatural⟩ := tokens_number h
    refine ⟨_, _, tokens_eq_singleton htokens, nofun, fun value hvalue => ?_⟩
    cases value with
    | none => exact nomatch hvalue
    | some n => exact countText_iff.mp ((hnatural n).mp (Token.number.inj hvalue))
  | text h => exact ⟨_, _, tokens_spelled h [], nofun, hother nofun nofun⟩
  | array h hitems =>
    exact ⟨_, _, tokens_array h (fun item hitem => (hitems item hitem).passable.lexed) [], nofun, hother nofun nofun⟩
  | object h hvalues =>
    exact ⟨_, _, tokens_object h (fun member hmember => (hvalues member hmember).passable.lexed) [], nofun,
      hother nofun nofun⟩

theorem readCells_eq_ok_iff {n : Cells} : readCells token = .ok n ↔ token = .number (some (.natural n)) := by
  unfold readCells
  split
  · simp
  · simp
  · next hnatural _ => exact iff_of_false nofun (hnatural n)

theorem Field.read_eq_ok_iff {field : Field} :
    field.read token = .ok value ↔ token = valueToken value ∧ field.Allows value := by
  unfold Field.read Field.Allows
  split
  · next hoptional =>
    cases value with
    | none => exact iff_of_true rfl ⟨rfl, fun _ => hoptional⟩
    | some n => exact iff_of_false (fun h => nomatch h) fun h => nomatch h.1
  · next hnull =>
    rw [map_eq_ok_iff]
    cases value with
    | none => exact iff_of_false (fun ⟨_, _, h⟩ => nomatch h) fun h => hnull (h.2 rfl) h.1
    | some n =>
      constructor
      · rintro ⟨_, hread, ⟨⟩⟩
        exact ⟨readCells_eq_ok_iff.mp hread, fun h => nomatch h⟩
      · exact fun h => ⟨n, readCells_eq_ok_iff.mpr h.1, rfl⟩

/-- From the front of a value a field reads the whole of it, and no other values than it may have. -/
theorem ValueText.read (h : ValueText text) : ∃ token more, tokens text = token :: more ∧ token ≠ .closeBracket ∧
    ∀ (field : Field) (value : Option Cells),
      field.read token = .ok value ↔ more = [] ∧ text = valueText value ∧ field.Allows value := by
  obtain ⟨token, more, htokens, hne, htext⟩ := h.exists_token
  refine ⟨token, more, htokens, hne, fun field value => ?_⟩
  rw [Field.read_eq_ok_iff]
  constructor
  · rintro ⟨htoken, hallows⟩
    rw [htext value htoken, tokens_valueText] at htokens
    exact ⟨(List.cons.inj htokens).2.symm, htext value htoken, hallows⟩
  · rintro ⟨-, rfl, hallows⟩
    rw [tokens_valueText] at htokens
    exact ⟨(List.cons.inj htokens).1.symm, hallows⟩

end Values

namespace Form
variable {α : Type} {form : Form α}

/-! ### Members -/

/-- What a member of an object does to what has been found: nothing if there is no field of its name, and otherwise it
    fills the field, which has had no value. -/
inductive Step (form : Form α) (found : Found) (member : Member) : Found → Prop
  | passed (h : form.fields.find? (·.name == member.key) = none) : Step form found member found
  | filled {field : Field} {value : Option Cells} (h : form.fields.find? (·.name == member.key) = some field)
    (hnew : found.lookup member.key = none) (hvalue : member.value = valueText value) (hallows : field.Allows value) :
    Step form found member (found ++ [(member.key, value)])

/-- What the members of an object do, one after another. -/
inductive Steps (form : Form α) : Found → List Member → Found → Prop
  | nil {found : Found} : Steps form found [] found
  | cons {found next last : Found} {member : Member} {members : List Member} (h : form.Step found member next)
    (later : Steps form next members last) : Steps form found (member :: members) last

section Members
variable {found : Found} {member : Member} {members : List Member} {rest : List Token} {taken : Taken Found}

theorem step_iff_of_none {next : Found} (h : form.fields.find? (·.name == member.key) = none) :
    form.Step found member next ↔ next = found := by
  constructor
  · rintro (_ | h')
    · rfl
    · cases h.symm.trans h'
  · rintro rfl
    exact .passed h

theorem step_iff_of_some {field : Field} {next : Found}
    (h : form.fields.find? (·.name == member.key) = some field) : form.Step found member next ↔
      found.lookup member.key = none ∧
        ∃ value, member.value = valueText value ∧ field.Allows value ∧ next = found ++ [(member.key, value)] := by
  constructor
  · rintro (h' | ⟨h', hnew, hvalue, hallows⟩)
    · cases h.symm.trans h'
    · obtain rfl := Option.some.inj (h.symm.trans h')
      exact ⟨hnew, _, hvalue, hallows, rfl⟩
  · rintro ⟨hnew, value, hvalue, hallows, rfl⟩
    exact .filled h hnew hvalue hallows

theorem readAfterKey_eq_ok_iff (hvalue : ValueText member.value) :
    form.readAfterKey found member.key (.colon :: (tokens member.value ++ rest)) = .ok taken ↔
      form.Step found member taken.value ∧ taken.rest = rest := by
  obtain ⟨next, after⟩ := taken
  unfold readAfterKey
  split
  · next field hfield =>
    obtain ⟨token, more, htokens, -, hread⟩ := hvalue.read
    rw [step_iff_of_some hfield]
    split
    · next hsome =>
      refine iff_of_false nofun fun ⟨⟨hnew, _⟩, _⟩ => ?_
      rw [hnew] at hsome
      cases hsome
    · next hnone =>
      rw [htokens, List.cons_append, map_eq_ok_iff]
      constructor
      · rintro ⟨value, hvalue, ⟨⟩⟩
        obtain ⟨rfl, htext, hallows⟩ := (hread field value).mp hvalue
        exact ⟨⟨Option.not_isSome_iff_eq_none.mp hnone, value, htext, hallows, rfl⟩, rfl⟩
      · rintro ⟨⟨-, value, htext, hallows, rfl⟩, rfl⟩
        rw [htext, tokens_valueText] at htokens
        obtain ⟨rfl, rfl⟩ := List.cons.inj htokens
        exact ⟨value, (hread field value).mpr ⟨rfl, htext, hallows⟩, rfl⟩
  · next hfield =>
    have hskip : skipValue? (tokens member.value ++ rest) = some rest := hvalue.passable.skipped.value [] rest
    rw [step_iff_of_none hfield]
    simp only [hskip, Except.ok.injEq, Taken.mk.injEq, eq_comm]

theorem readMembers_close (found : Found) (isFirst : Bool) (rest : List Token) :
    form.readMembers found isFirst (.closeBrace :: rest) = .ok ⟨found, rest⟩ := by
  rw [readMembers]

theorem readMembers_of_ne {isFirst : Bool} {tokens : List Token} (h : ∀ rest, tokens ≠ .closeBrace :: rest) :
    form.readMembers found isFirst tokens =
      form.readMember found isFirst tokens >>= fun taken => form.readMembers taken.value false taken.rest := by
  rw [readMembers]
  · cases form.readMember found isFirst tokens <;> rfl
  · exact fun rest heq => h rest heq

theorem readMembers_member (found : Found) (isFirst : Bool) (member : Member) (members : List Member) :
    form.readMembers found isFirst (separated isFirst ((member :: members).map Member.tokens) ++ rest) =
      form.readAfterKey found member.key
          (.colon :: (tokens member.value ++ (separated false (members.map Member.tokens) ++ rest))) >>=
        fun taken => form.readMembers taken.value false taken.rest := by
  rw [List.map_cons]
  cases isFirst with
  | true =>
    rw [separated, List.append_assoc]
    exact readMembers_of_ne (by rintro _ ⟨⟩)
  | false =>
    rw [separated, List.cons_append, List.append_assoc]
    exact readMembers_of_ne (by rintro _ ⟨⟩)

/-- The members of an object are read where each of them is, one after another. -/
theorem readMembers_eq_ok_iff {isFirst : Bool} (hvalues : ∀ member ∈ members, ValueText member.value) :
    form.readMembers found isFirst (separated isFirst (members.map Member.tokens) ++ .closeBrace :: rest) = .ok taken ↔
      form.Steps found members taken.value ∧ taken.rest = rest := by
  induction members generalizing found isFirst with
  | nil =>
    rw [List.map_nil, separated, List.nil_append, readMembers_close]
    obtain ⟨last, after⟩ := taken
    constructor
    · rintro ⟨⟩
      exact ⟨.nil, rfl⟩
    · rintro ⟨⟨⟩, rfl⟩
      rfl
  | cons member members ih =>
    obtain ⟨hvalue, hvalues⟩ := List.forall_mem_cons.mp hvalues
    rw [readMembers_member, bind_eq_ok_iff]
    constructor
    · rintro ⟨next, hnext, hlater⟩
      obtain ⟨hstep, hrest⟩ := (readAfterKey_eq_ok_iff hvalue).mp hnext
      rw [hrest] at hlater
      obtain ⟨hsteps, hlast⟩ := (ih hvalues).mp hlater
      exact ⟨.cons hstep hsteps, hlast⟩
    · rintro ⟨hsteps, hlast⟩
      generalize hlastvalue : taken.value = last at hsteps
      cases hsteps with
      | @cons _ next _ _ _ hstep hlater =>
        exact ⟨⟨next, _⟩, (readAfterKey_eq_ok_iff hvalue).mpr ⟨hstep, rfl⟩,
          (ih hvalues).mpr ⟨hlastvalue ▸ hlater, hlast⟩⟩

end Members

/-! ### Fields -/

/-- A form that is sound: fields have different names, and the values that a record is made of are those it is taken
    apart into, each of which its field may have. -/
structure Lawful (form : Form α) : Prop where
  nodup : (form.fields.map Field.name).Nodup
  eq_toValues : ∀ {values : List (Option Cells)} {a : α}, form.ofValues? values = some a → values = form.toValues a
  allows : ∀ a, List.Forall₂ Field.Allows form.fields (form.toValues a)

/-- What happens to a field whose members have the values `texts`: it stays as it was without any, and gets the value of
    a single one. -/
inductive Outcome (field : Field) (texts : List (List Char)) : Option (Option Cells) → Option (Option Cells) → Prop
  | kept {before : Option (Option Cells)} (h : texts = []) : Outcome field texts before before
  | filled {value : Option Cells} (h : texts = [valueText value]) (hallows : field.Allows value) :
    Outcome field texts none (some value)

section Fields
variable {found last : Found} {member : Member} {members : List Member} {field : Field}

theorem find?_name {fields : List Field} (hnodup : (fields.map Field.name).Nodup) (h : field ∈ fields) :
    fields.find? (·.name == field.name) = some field := by
  induction fields with
  | nil => exact nomatch h
  | cons other fields ih =>
    obtain ⟨hother, hnodup⟩ := List.nodup_cons.mp hnodup
    rcases List.mem_cons.mp h with rfl | h
    · exact List.find?_cons_of_pos (beq_self_eq_true _)
    · have hne : other.name ≠ field.name := fun heq => hother (heq ▸ List.mem_map_of_mem h)
      rw [List.find?_cons_of_neg (by simpa using hne)]
      exact ih hnodup h

theorem valuesOf_cons_self (member : Member) (members : List Member) :
    valuesOf member.key (member :: members) = member.value :: valuesOf member.key members := by
  simp [valuesOf]

theorem valuesOf_cons_of_ne {key : String} (h : member.key ≠ key) (members : List Member) :
    valuesOf key (member :: members) = valuesOf key members := by
  simp [valuesOf, h]

theorem lookup_concat_of_ne {key name : String} (h : key ≠ name) (found : Found) (value : Option Cells) :
    (found ++ [(key, value)]).lookup name = found.lookup name := by
  have hne : (name == key) = false := beq_false_of_ne h.symm
  simp [List.lookup_append, List.lookup_cons, hne]

theorem lookup_concat_self {key : String} (h : found.lookup key = none) (value : Option Cells) :
    (found ++ [(key, value)]).lookup key = some value := by
  simp [List.lookup_append, h]

theorem Outcome.of_some {texts : List (List Char)} {value : Option Cells} {after : Option (Option Cells)}
    (h : Outcome field texts (some value) after) : texts = [] ∧ after = some value := by
  cases h with
  | kept h => exact ⟨h, rfl⟩

theorem Outcome.of_cons {text : List Char} {texts : List (List Char)} {before after : Option (Option Cells)}
    (h : Outcome field (text :: texts) before after) :
    before = none ∧ texts = [] ∧ ∃ value, text = valueText value ∧ field.Allows value := by
  cases h with
  | kept h => exact nomatch h
  | filled h hallows => exact ⟨rfl, (List.cons.inj h).2, _, (List.cons.inj h).1, hallows⟩

/-- A field after the members of an object. -/
theorem Steps.outcome (hform : form.Lawful) (h : form.Steps found members last) (hfield : field ∈ form.fields) :
    Outcome field (valuesOf field.name members) (found.lookup field.name) (last.lookup field.name) := by
  induction h with
  | nil => exact .kept rfl
  | @cons found next last member members hstep _ ih =>
    by_cases hname : member.key = field.name
    · have hfind := hname ▸ find?_name hform.nodup hfield
      obtain ⟨hnew, value, hvalue, hallows, rfl⟩ := (step_iff_of_some hfind).mp hstep
      rw [← hname, lookup_concat_self hnew] at ih
      obtain ⟨hlater, hlast⟩ := ih.of_some
      rw [← hname, valuesOf_cons_self, hnew, hlater, hlast]
      exact .filled (congrArg (fun text => [text]) hvalue) hallows
    · rw [valuesOf_cons_of_ne hname]
      cases hstep with
      | passed => exact ih
      | filled => rwa [lookup_concat_of_ne hname] at ih

/-- Members can be read if each field allows it. -/
theorem exists_steps (hform : form.Lawful) (h : ∀ field ∈ form.fields, ∃ after,
    Outcome field (valuesOf field.name members) (found.lookup field.name) after) :
    ∃ last, form.Steps found members last := by
  induction members generalizing found with
  | nil => exact ⟨found, .nil⟩
  | cons member members ih =>
    cases hfind : form.fields.find? (·.name == member.key) with
    | none =>
      have hne : ∀ field ∈ form.fields, member.key ≠ field.name := fun field hfield hname => by
        rw [hname, find?_name hform.nodup hfield] at hfind
        cases hfind
      obtain ⟨last, hsteps⟩ := ih fun field hfield =>
        valuesOf_cons_of_ne (hne field hfield) members ▸ h field hfield
      exact ⟨last, .cons (.passed hfind) hsteps⟩
    | some field =>
      obtain ⟨after, houtcome⟩ := h field (List.mem_of_find?_eq_some hfind)
      have hkey := List.find?_some hfind
      rw [eq_of_beq hkey, valuesOf_cons_self] at houtcome
      obtain ⟨hnew, hnone, value, hvalue, hallows⟩ := houtcome.of_cons
      have hlater : ∃ last, form.Steps (found ++ [(member.key, value)]) members last := ih fun other hother => by
        by_cases hsame : member.key = other.name
        -- The field that has just been filled has no other member.
        · rw [← hsame, hnone]
          exact ⟨_, .kept rfl⟩
        · rw [lookup_concat_of_ne hsame, ← valuesOf_cons_of_ne hsame]
          exact h other hother
      obtain ⟨last, hsteps⟩ := hlater
      exact ⟨last, .cons (.filled hfind hnew hvalue hallows) hsteps⟩

end Fields
end Form
end Allotment.Json
