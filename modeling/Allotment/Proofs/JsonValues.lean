import Allotment.Proofs.JsonTokens

/-! Values as tokens. A value is passed over up to its end whatever it holds, in whatever it stands. -/

namespace Allotment.Json

/-! ### Tokens -/

section Tokens
variable {text rest : List Char}

theorem tokens_array {items : List (List Char)} (h : Listed items text) (hitems : ∀ item ∈ items, Lexed item)
    (rest : List Char) : tokens ('[' :: text ++ ']' :: rest) =
      .openBracket :: (separated true (items.map tokens) ++ .closeBracket :: tokens rest) := by
  rw [List.cons_append, tokens_openBracket, tokens_listed h hitems (.cons (by decide)), tokens_closeBracket]

theorem tokens_object {members : List Member} (h : MembersText members text)
    (hvalues : ∀ member ∈ members, Lexed member.value) (rest : List Char) : tokens ('\x7b' :: text ++ '\x7d' :: rest) =
      .openBrace :: (separated true (members.map Member.tokens) ++ .closeBrace :: tokens rest) := by
  rw [List.cons_append, tokens_openBrace, tokens_members h hvalues (.cons (by decide)), tokens_closeBrace]

end Tokens

/-! ### Passing over -/

/-- Goes on after a value that stands in the containers of `stack`. -/
def resume : List Container → List Token → Option (List Token)
  | [], rest => some rest
  | container :: stack, rest => skip? .next (container :: stack) rest

section Skip
variable {stage : Stage} {stack stack' : List Container} {token : Token} {rest : List Token}

theorem skip?_of_next (h : stage.step stack token = some (.next, stack')) :
    skip? stage stack (token :: rest) = resume stack' rest := by
  rw [skip?, h]
  cases stack' <;> rfl

theorem skip?_of_step {stage' : Stage} (h : stage.step stack token = some (stage', stack')) (hne : stage' ≠ .next) :
    skip? stage stack (token :: rest) = skip? stage' stack' rest := by
  rw [skip?, h]
  cases stage' with
  | next => exact absurd rfl hne
  | _ => rfl

/-- The tokens of something that is passed over in a container at `stage`, up to a comma or the end of the container. -/
def Passes (stage : Stage) (container : Container) (ts : List Token) : Prop :=
  ∀ (stack : List Container) (rest : List Token),
    skip? stage (container :: stack) (ts ++ rest) = skip? .next (container :: stack) rest

/-- What a container holds is passed over piece by piece; the first piece may have a stage of its own. -/
theorem skip?_separated {first : Stage} {container : Container} {close : Token} (hstage : stage ≠ .next)
    (hcomma : ∀ stack, Stage.step .next (container :: stack) .comma = some (stage, container :: stack))
    (hclose : ∀ stack, Stage.step .next (container :: stack) close = some (.next, stack)) {ts : List Token}
    {tss : List (List Token)} (hfirst : Passes first container ts) (hlater : ∀ us ∈ tss, Passes stage container us) :
    skip? first (container :: stack) (separated true (ts :: tss) ++ close :: rest) = resume stack rest := by
  induction tss generalizing ts first with
  | nil => rw [separated, List.append_assoc, hfirst, separated, List.nil_append, skip?_of_next (hclose stack)]
  | cons us tss ih =>
    obtain ⟨hus, hlater⟩ := List.forall_mem_cons.mp hlater
    rw [separated, List.append_assoc, hfirst, separated, List.cons_append, skip?_of_step (hcomma stack) hstage]
    exact ih hus hlater

end Skip

/-- Tokens that are passed over as a value, also as the first item of an array. -/
structure Skipped (ts : List Token) : Prop where
  value : ∀ (stack : List Container) (rest : List Token), skip? .value stack (ts ++ rest) = resume stack rest
  item : ∀ (stack : List Container) (rest : List Token), skip? .item stack (ts ++ rest) = resume stack rest

section Skipped
variable {token : Token} {ts : List Token}

/-- A token that opens a value ends no array. -/
theorem Stage.step_item {stack : List Container} {next : Stage × List Container} (h : opened stack token = some next) :
    step .item stack token = some next := by
  cases token with
  | closeBracket => exact nomatch h
  | _ =>
    rcases stack with _ | ⟨_ | _, stack⟩ <;> exact h

theorem Stage.step_value {stack : List Container} {next : Stage × List Container}
    (h : opened stack token = some next) : step .value stack token = some next := by
  rw [step, h]

theorem Skipped.of_scalar (h : ∀ stack, Stage.opened stack token = some (.next, stack)) : Skipped [token] where
  value stack _ := skip?_of_next (Stage.step_value (h stack))
  item stack _ := skip?_of_next (Stage.step_item (h stack))

theorem Skipped.of_container {stage : Stage} {container : Container} (hstage : stage ≠ .next)
    (hopened : ∀ stack, Stage.opened stack token = some (stage, container :: stack))
    (h : ∀ (stack : List Container) (rest : List Token),
      skip? stage (container :: stack) (ts ++ rest) = resume stack rest) :
    Skipped (token :: ts) where
  value stack rest := (skip?_of_step (Stage.step_value (hopened stack)) hstage).trans (h stack rest)
  item stack rest := (skip?_of_step (Stage.step_item (hopened stack)) hstage).trans (h stack rest)

theorem Skipped.array {tss : List (List Token)} (h : ∀ ts ∈ tss, Skipped ts) :
    Skipped (.openBracket :: (separated true tss ++ [.closeBracket])) := by
  refine .of_container (by decide : Stage.item ≠ .next) (fun _ => rfl) fun stack rest => ?_
  rw [List.append_assoc]
  cases tss with
  | nil => exact skip?_of_next rfl
  | cons ts tss =>
    obtain ⟨hfirst, hlater⟩ := List.forall_mem_cons.mp h
    exact skip?_separated (by decide) (fun _ => rfl) (fun _ => rfl) (fun stack rest => hfirst.item _ rest)
      fun us hus stack rest => (hlater us hus).value _ rest

/-- A member is passed over at either stage at which a key may stand. -/
theorem Member.passes {stage : Stage} {member : Member} (hstage : stage = .member ∨ stage = .key)
    (h : Skipped (Json.tokens member.value)) : Passes stage .object member.tokens := by
  intro stack rest
  have hkey : stage.step (.object :: stack) (.text (some member.key)) = some (.colon, .object :: stack) := by
    rcases hstage with rfl | rfl <;> rfl
  rw [Member.tokens, List.cons_append, List.cons_append, skip?_of_step hkey (by decide),
    skip?_of_step rfl (by decide : Stage.value ≠ .next)]
  exact h.value (.object :: stack) rest

theorem Skipped.object {members : List Member} (h : ∀ member ∈ members, Skipped (tokens member.value)) :
    Skipped (.openBrace :: (separated true (members.map Member.tokens) ++ [.closeBrace])) := by
  refine .of_container (by decide : Stage.member ≠ .next) (fun _ => rfl) fun stack rest => ?_
  rw [List.append_assoc]
  cases members with
  | nil => exact skip?_of_next rfl
  | cons member members =>
    obtain ⟨hfirst, hlater⟩ := List.forall_mem_cons.mp h
    exact skip?_separated (by decide : Stage.key ≠ .next) (fun _ => rfl) (fun _ => rfl)
      (Member.passes (Or.inl rfl) hfirst)
      (List.forall_mem_map.mpr fun member hmember => Member.passes (Or.inr rfl) (hlater member hmember))

end Skipped

/-- A text that is passed over as a value, and whose tokens are the same whatever follows. -/
structure Passable (text : List Char) : Prop where
  lexed : Lexed text
  skipped : Skipped (tokens text)

theorem Passable.of_tokens {text : List Char} {ts : List Token}
    (htokens : ∀ rest, Ends rest → tokens (text ++ rest) = ts ++ tokens rest) (hskipped : Skipped ts) :
    Passable text := by
  obtain ⟨htext, hlexed⟩ := Lexed.of_tokens htokens
  exact ⟨hlexed, htext ▸ hskipped⟩

theorem ValueText.passable {text : List Char} (h : ValueText text) : Passable text := by
  induction h with
  | null => exact .of_tokens (fun rest _ => tokens_null rest) (.of_scalar fun _ => rfl)
  | bool h =>
    obtain ⟨b, htokens⟩ := tokens_bool h
    exact .of_tokens (fun rest _ => htokens rest) (.of_scalar fun _ => rfl)
  | number h =>
    obtain ⟨number, htokens, -⟩ := tokens_number h
    exact .of_tokens htokens (.of_scalar fun _ => rfl)
  | @text value written h =>
    have hskipped : Skipped [.text (some (String.ofList value))] := .of_scalar fun _ => rfl
    refine .of_tokens (fun rest _ => ?_) hskipped
    rw [List.append_assoc]
    exact tokens_spelled h rest
  | array h _ ih =>
    refine .of_tokens (fun rest _ => ?_) (.array (List.forall_mem_map.mpr fun item hitem => (ih item hitem).skipped))
    rw [List.append_assoc]
    simpa using tokens_array h (fun item hitem => (ih item hitem).lexed) rest
  | object h _ ih =>
    refine .of_tokens (fun rest _ => ?_) (.object fun member hmember => (ih member hmember).skipped)
    rw [List.append_assoc]
    simpa using tokens_object h (fun member hmember => (ih member hmember).lexed) rest

end Allotment.Json
