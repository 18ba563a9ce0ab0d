import Allotment.Json.Record

/-! Lists of records, and whole texts. -/

namespace Allotment.Json
namespace Form
variable {α : Type}

theorem length_beforeItem {isFirst : Bool} {tokens rest : List Token} (h : beforeItem isFirst tokens = .ok rest) :
    rest.length ≤ tokens.length := by
  unfold beforeItem at h
  split at h
  · obtain rfl := Except.ok.inj h
    exact Nat.le_refl _
  · obtain rfl := Except.ok.inj h
    simp
  · contradiction

theorem length_readItems {form : Form α} {count : Nat} {fields : List Field} {tokens : List Token}
    {taken : Taken (List (Option Cells))} (h : form.readItems count fields tokens = .ok taken) :
    taken.rest.length < tokens.length := by
  induction fields generalizing count tokens taken with
  | nil =>
    unfold readItems at h
    split at h
    · obtain rfl := Except.ok.inj h
      simp
    all_goals simp_all
  | cons field fields ih =>
    unfold readItems at h
    split at h
    any_goals contradiction
    rename_i ts _ _ _ _ heq _
    obtain ⟨rfl, rfl⟩ := List.cons.inj heq
    cases hbefore : beforeItem (decide (count = 0)) ts with
    | error problem => simp [hbefore, bind, Except.bind] at h
    | ok rest =>
      have hle := length_beforeItem hbefore
      cases rest with
      | nil => simp [hbefore, bind, Except.bind] at h
      | cons token rest =>
        cases hvalue : field.read token with
        | error problem => simp [hbefore, hvalue, bind, Except.bind] at h
        | ok value =>
          cases hlater : form.readItems (count + 1) fields rest with
          | error problem => simp [hbefore, hvalue, hlater, bind, Except.bind] at h
          | ok later =>
            simp only [hbefore, hvalue, hlater, bind, Except.bind, pure, Except.pure, Except.ok.injEq] at h
            subst h
            have := ih hlater
            rw [List.length_cons] at hle
            dsimp only
            omega

theorem length_readMembers {form : Form α} {found : Found} {isFirst : Bool} {tokens : List Token}
    {taken : Taken Found} (h : form.readMembers found isFirst tokens = .ok taken) :
    taken.rest.length < tokens.length := by
  fun_induction readMembers form found isFirst tokens with
  | case1 found isFirst rest =>
    obtain rfl := Except.ok.inj h
    simp
  | case2 => contradiction
  | case3 found isFirst tokens _ member hmember ih =>
    have := ih h
    have := length_readMember hmember
    omega

theorem length_read {form : Form α} {tokens : List Token} {taken : Taken α} (h : form.read tokens = .ok taken) :
    taken.rest.length < tokens.length := by
  unfold read at h
  cases hvalues : form.readValues tokens with
  | error problem => simp [hvalues, bind, Except.bind] at h
  | ok values =>
    simp only [hvalues, bind, Except.bind] at h
    have hrest : taken.rest = values.rest := by
      split at h
      · obtain rfl := Except.ok.inj h
        rfl
      · contradiction
    rw [hrest]
    unfold readValues at hvalues
    split at hvalues
    · contradiction
    · have := length_readItems hvalues
      simp only [List.length_cons]
      omega
    · rename_i rest
      cases hfound : form.readMembers [] true rest with
      | error problem => simp [hfound, bind, Except.bind] at hvalues
      | ok found =>
        simp only [hfound, bind, Except.bind] at hvalues
        split at hvalues
        · contradiction
        · obtain rfl := Except.ok.inj hvalues
          have := length_readMembers hfound
          simp only [List.length_cons]
          omega
    · contradiction

/-- Reads one record of a list. -/
def readElement (form : Form α) (isFirst : Bool) (tokens : List Token) : Except Problem (Taken α) :=
  beforeItem isFirst tokens >>= form.read

theorem length_readElement {form : Form α} {isFirst : Bool} {tokens : List Token} {taken : Taken α}
    (h : form.readElement isFirst tokens = .ok taken) : taken.rest.length < tokens.length := by
  unfold readElement at h
  cases hbefore : beforeItem isFirst tokens with
  | error problem => simp [hbefore, bind, Except.bind] at h
  | ok rest =>
    simp only [hbefore, bind, Except.bind] at h
    have := length_beforeItem hbefore
    have := length_read h
    omega

/-- Reads the records that are left of a list. -/
def readElements (form : Form α) (isFirst : Bool) (tokens : List Token) : Except Problem (Taken (List α)) :=
  match tokens with
  | .closeBracket :: rest => .ok ⟨[], rest⟩
  | tokens =>
    match _ : form.readElement isFirst tokens with
    | .error problem => .error problem
    | .ok taken =>
      (form.readElements false taken.rest).map fun later => ⟨taken.value :: later.value, later.rest⟩
termination_by tokens.length
decreasing_by
  rename_i helement
  exact length_readElement helement

/-- Reads a list of records. -/
def readList (form : Form α) (tokens : List Token) : Except Problem (Taken (List α)) :=
  match tokens with
  | [] => .error .malformed
  | .openBracket :: rest => form.readElements true rest
  | token :: _ => .error (.mismatch token "a sequence")

end Form

/-- Reads a text that holds one value and nothing else. -/
def readText {α : Type} (read : List Token → Except Problem (Taken α)) (text : String) : Except Problem α := do
  let taken ← read (tokens text.toList)
  if taken.rest.isEmpty then return taken.value else .error .malformed

end Allotment.Json
