import Allotment.Json.Skip
import Allotment.Proofs.JsonNumbers

/-! Texts by the grammar and as tokens. Whatever follows a value, its tokens are the same, and come before those of what
    follows. -/

namespace Allotment.Json

/-! ### Text literals -/

section Literals
variable {value written : List Char}

theorem hexDigit?_eq {c : Char} {x : Nat} (h : HexDigit c x) : hexDigit? c = some x := by
  have hdigits : ∀ digits ∈ ["0123456789abcdef".toList, "0123456789ABCDEF".toList], digits.length = 16 ∧
      ∀ i < 16, digits[i]?.bind hexDigit? = some i := by decide
  have hdigit : ∀ digits ∈ ["0123456789abcdef".toList, "0123456789ABCDEF".toList], digits[x]? = some c →
      hexDigit? c = some x := by
    intro digits hmem hc
    obtain ⟨hlength, hvalue⟩ := hdigits digits hmem
    have hread := hvalue x (hlength ▸ (List.getElem?_eq_some_iff.mp hc).1)
    rwa [hc, Option.bind_some] at hread
  rcases h with hc | hc
  · exact hdigit _ List.mem_cons_self hc
  · exact hdigit _ (List.mem_cons_of_mem _ List.mem_cons_self) hc

theorem pieces?_unit {digits : List Char} {n : Nat} (h : UnitText digits n) (text : List Char) :
    pieces? (digits ++ text) = (pieces? text).map fun (pieces, rest) => (.unit n :: pieces, rest) := by
  cases h with
  | @mk a b c d w x y z ha hb hc hd =>
    have hunit : unit? a b c d = some (.unit (((w * 16 + x) * 16 + y) * 16 + z)) := by
      rw [unit?, hexDigit?_eq ha, hexDigit?_eq hb, hexDigit?_eq hc, hexDigit?_eq hd]
      exact congrArg (fun n => some (Piece.unit n)) (by omega)
    simp only [List.cons_append, List.nil_append, pieces?, hunit, Option.pure_def, Option.bind_eq_bind,
      Option.bind_some, Option.map_eq_bind]
    rfl

theorem shorthand?_eq {letter c : Char} (h : (letter, c) ∈ shorthands) :
    shorthand? letter = some c ∧ letter ≠ 'u' := by
  simp only [shorthands, List.mem_cons, List.not_mem_nil, or_false, Prod.mk.injEq] at h
  rcases h with ⟨rfl, rfl⟩ | ⟨rfl, rfl⟩ | ⟨rfl, rfl⟩ | ⟨rfl, rfl⟩ | ⟨rfl, rfl⟩ | ⟨rfl, rfl⟩ | ⟨rfl, rfl⟩ |
    ⟨rfl, rfl⟩ <;> exact ⟨rfl, by decide⟩

theorem pieces?_shorthand {letter c : Char} (h : (letter, c) ∈ shorthands) (text : List Char) :
    pieces? ('\\' :: letter :: text) = (pieces? text).map fun (pieces, rest) => (.char c :: pieces, rest) := by
  obtain ⟨hletter, hu⟩ := shorthand?_eq h
  rw [pieces?, hletter]
  · simp only [Option.pure_def, Option.bind_eq_bind, Option.bind_some, Option.map_eq_bind]
    rfl
  · exact fun _ _ _ _ _ heq _ => hu heq

theorem pieces?_plain {c : Char} (h : isPlain c = true) (text : List Char) :
    pieces? (c :: text) = (pieces? text).map fun (pieces, rest) => (.char c :: pieces, rest) := by
  simp only [isPlain, Bool.and_eq_true, decide_eq_true_eq] at h
  obtain ⟨⟨hc, hquote⟩, hbackslash⟩ := h
  rw [pieces?, if_neg]
  · simp only [Option.pure_def, Option.bind_eq_bind, Option.map_eq_bind]
    rfl
  · simpa using ⟨hc, hbackslash⟩
  · exact hquote
  · exact fun _ _ _ _ _ heq _ => hbackslash heq
  · exact fun _ _ heq _ => hbackslash heq

/-- The code of a character is not half of a pair. -/
theorem not_half (c : Char) : isHigh c.toNat = false ∧ isLow c.toNat = false := by
  have hvalid : c.toNat < 0xd800 ∨ 0xdfff < c.toNat ∧ c.toNat < 0x110000 := c.valid
  rw [isHigh, isLow, Bool.and_eq_false_iff, Bool.and_eq_false_iff]
  simp only [decide_eq_false_iff_not]
  omega

theorem characters?_unit (c : Char) (pieces : List Piece) :
    characters? (.unit c.toNat :: pieces) = (characters? pieces).map (c :: ·) := by
  obtain ⟨hhigh, hlow⟩ := not_half c
  cases pieces with
  | nil => simp [characters?, hhigh, hlow]
  | cons piece pieces => cases piece <;> simp [characters?, hhigh, hlow]

theorem ofPair_eq {c : Char} {high low : Nat} (hc : c.toNat = 0x10000 + high * 0x400 + low) :
    ofPair (0xd800 + high) (0xdc00 + low) = c := by
  rw [ofPair, Nat.add_sub_cancel_left, Nat.add_sub_cancel_left, ← hc, Char.ofNat_toNat]

theorem isHigh_add {high : Nat} (h : high < 0x400) : isHigh (0xd800 + high) = true := by
  rw [isHigh, Bool.and_eq_true, decide_eq_true_eq, decide_eq_true_eq]
  omega

theorem isLow_add {low : Nat} (h : low < 0x400) : isLow (0xdc00 + low) = true := by
  rw [isLow, Bool.and_eq_true, decide_eq_true_eq, decide_eq_true_eq]
  omega

/-- What is spelled is read back, up to the closing quote. -/
theorem Spelled.read (h : Spelled value written) : ∃ pieces, characters? pieces = some value ∧
    ∀ rest, pieces? (written ++ '"' :: rest) = some (pieces, rest) := by
  induction h with
  | nil => exact ⟨[], rfl, fun _ => rfl⟩
  | @plain c value written hc _ ih =>
    obtain ⟨pieces, hvalue, hread⟩ := ih
    refine ⟨.char c :: pieces, by rw [characters?, hvalue]; rfl, fun rest => ?_⟩
    rw [List.cons_append, pieces?_plain hc, hread]
    rfl
  | @shorthand letter c value written hletter _ ih =>
    obtain ⟨pieces, hvalue, hread⟩ := ih
    refine ⟨.char c :: pieces, by rw [characters?, hvalue]; rfl, fun rest => ?_⟩
    rw [List.cons_append, List.cons_append, pieces?_shorthand hletter, hread]
    rfl
  | @unit c digits value written hunit _ ih =>
    obtain ⟨pieces, hvalue, hread⟩ := ih
    refine ⟨.unit c.toNat :: pieces, by rw [characters?_unit, hvalue]; rfl, fun rest => ?_⟩
    rw [List.append_assoc, pieces?_unit hunit, hread]
    rfl
  | @pair c high low first second value written hhigh hlow hfirst hsecond hc _ ih =>
    obtain ⟨pieces, hvalue, hread⟩ := ih
    refine ⟨.unit (0xd800 + high) :: .unit (0xdc00 + low) :: pieces, ?_, fun rest => ?_⟩
    · rw [characters?, isHigh_add hhigh, if_pos rfl, isLow_add hlow, if_pos rfl, hvalue, ofPair_eq hc]
      rfl
    · rw [List.append_assoc, List.append_assoc, pieces?_unit hfirst, pieces?_unit hsecond, hread]
      rfl

end Literals

/-! ### Tokens -/

section Tokens
variable {text rest : List Char}

theorem tokens_of_blank (h : text.dropWhile isBlank = []) : tokens text = [] := by
  rw [tokens]
  split
  · rfl
  · next heq => cases heq.symm.trans h

theorem tokens_of_first? {c : Char} {token : Token} {after : List Char} (h : text.dropWhile isBlank = c :: rest)
    (hfirst : Token.first? c rest = some (token, after)) : tokens text = token :: tokens after := by
  rw [tokens]
  split
  · next heq => cases heq.symm.trans h
  · next heq =>
    obtain ⟨rfl, rfl⟩ := List.cons.inj (heq.symm.trans h)
    split
    · next hnone => cases hnone.symm.trans hfirst
    · next hsome =>
      obtain ⟨rfl, rfl⟩ := Prod.mk.inj (Option.some.inj (hsome.symm.trans hfirst))
      rfl

theorem tokens_of_bad {c : Char} (h : text.dropWhile isBlank = c :: rest) (hfirst : Token.first? c rest = none) :
    tokens text = [.bad] := by
  rw [tokens]
  split
  · next heq => cases heq.symm.trans h
  · next heq =>
    obtain ⟨rfl, rfl⟩ := List.cons.inj (heq.symm.trans h)
    split
    · rfl
    · next hsome => cases hsome.symm.trans hfirst

theorem tokens_cons {c : Char} {token : Token} {after : List Char} (hc : isBlank c = false)
    (h : Token.first? c rest = some (token, after)) : tokens (c :: rest) = token :: tokens after :=
  tokens_of_first? (List.dropWhile_cons_of_neg (Bool.eq_false_iff.mp hc)) h

theorem tokens_blank_append {blank : List Char} (hblank : Blank blank) (text : List Char) :
    tokens (blank ++ text) = tokens text := by
  have hdrop : (blank ++ text).dropWhile isBlank = text.dropWhile isBlank :=
    List.dropWhile_append_of_pos fun c hc => by simpa [isBlank, or_assoc] using hblank c hc
  cases htext : text.dropWhile isBlank with
  | nil => rw [tokens_of_blank (hdrop.trans htext), tokens_of_blank htext]
  | cons c rest =>
    cases hfirst : Token.first? c rest with
    | none => rw [tokens_of_bad (hdrop.trans htext) hfirst, tokens_of_bad htext hfirst]
    | some taken => rw [tokens_of_first? (hdrop.trans htext) hfirst, tokens_of_first? htext hfirst]

theorem tokens_openBracket (rest : List Char) : tokens ('[' :: rest) = .openBracket :: tokens rest :=
  tokens_cons rfl rfl

theorem tokens_closeBracket (rest : List Char) : tokens (']' :: rest) = .closeBracket :: tokens rest :=
  tokens_cons rfl rfl

theorem tokens_openBrace (rest : List Char) : tokens ('\x7b' :: rest) = .openBrace :: tokens rest :=
  tokens_cons rfl rfl

theorem tokens_closeBrace (rest : List Char) : tokens ('\x7d' :: rest) = .closeBrace :: tokens rest :=
  tokens_cons rfl rfl

theorem tokens_comma (rest : List Char) : tokens (',' :: rest) = .comma :: tokens rest := tokens_cons rfl rfl

theorem tokens_colon (rest : List Char) : tokens (':' :: rest) = .colon :: tokens rest := tokens_cons rfl rfl

theorem tokens_null (rest : List Char) : tokens ("null".toList ++ rest) = .null :: tokens rest := tokens_cons rfl rfl

theorem tokens_bool (h : text ∈ ["true".toList, "false".toList]) :
    ∃ b, ∀ rest, tokens (text ++ rest) = .bool b :: tokens rest := by
  rcases List.mem_pair.mp h with rfl | rfl
  · exact ⟨true, fun _ => tokens_cons rfl rfl⟩
  · exact ⟨false, fun _ => tokens_cons rfl rfl⟩

theorem tokens_spelled {value written : List Char} (h : Spelled value written) (rest : List Char) :
    tokens ('"' :: written ++ '"' :: rest) = .text (some (String.ofList value)) :: tokens rest := by
  obtain ⟨pieces, hvalue, hread⟩ := h.read
  have hfirst : Token.first? '"' (written ++ '"' :: rest) = some (.text (some (String.ofList value)), rest) := by
    rw [Token.first?, hread, Option.map_some]
    dsimp only
    rw [hvalue]
    rfl
  exact tokens_cons rfl hfirst

/-- The characters that start tokens other than numbers. -/
def Token.starts : List Char := ['[', ']', '\x7b', '\x7d', ',', ':', 'n', 't', 'f', '"']

theorem Token.first?_number {c : Char} (hc : c ∉ Token.starts) (rest : List Char) :
    Token.first? c rest = (Literal.scan? (c :: rest)).map fun (literal, rest) => (.number literal.number?, rest) := by
  unfold Token.first?
  split <;> first | rfl | exact absurd (by decide) hc

theorem NumberText.exists_cons (h : NumberText text) :
    ∃ c more, text = c :: more ∧ isBlank c = false ∧ c ∉ Token.starts := by
  obtain ⟨hs, hwhole, -, -⟩ := h
  rcases List.mem_pair.mp hs with rfl | rfl
  · obtain ⟨c, ds, rfl, hc⟩ := hwhole.1.exists_cons
    refine ⟨c, _, rfl, Bool.eq_false_iff.mpr fun hblank => ?_, fun hstart => ?_⟩
    -- No digit is a blank, and none starts another token.
    · simp only [isBlank, Bool.or_eq_true, decide_eq_true_eq] at hblank
      rcases hblank with ((rfl | rfl) | rfl) | rfl <;> exact absurd hc (by decide)
    · have hdigit := List.all_eq_true.mp (by decide : Token.starts.all (!·.isDigit) = true) c hstart
      rw [hc] at hdigit
      exact nomatch hdigit
  · exact ⟨'-', _, rfl, rfl, by decide⟩

/-- A number is one token, whatever follows that is no part of it. -/
theorem tokens_number (h : NumberText text) : ∃ number,
    (∀ rest, Ends rest → tokens (text ++ rest) = .number number :: tokens rest) ∧
      ∀ n, number = some (.natural n) ↔ CountText text n := by
  obtain ⟨literal, hscan, hnatural⟩ := h.scan?
  obtain ⟨c, more, rfl, hblank, hc⟩ := h.exists_cons
  refine ⟨literal.number?, fun rest hrest => tokens_cons hblank ?_, hnatural⟩
  rw [Token.first?_number hc]
  exact congrArg (Option.map _) (hscan rest hrest)

end Tokens

/-! ### Tokens of values -/

/-- Tokens of one thing after another with commas between them, and before the first unless it is the first of all. -/
def separated : Bool → List (List Token) → List Token
  | _, [] => []
  | true, ts :: tss => ts ++ separated false tss
  | false, ts :: tss => .comma :: (ts ++ separated false tss)

/-- A text whose tokens are the same whatever follows. -/
def Lexed (text : List Char) : Prop := ∀ rest, Ends rest → tokens (text ++ rest) = tokens text ++ tokens rest

/-- The tokens of a member. -/
def Member.tokens (member : Member) : List Token :=
  .text (some member.key) :: .colon :: Json.tokens member.value

section Lexed
variable {text rest : List Char}

theorem Ends.nil : Ends [] := ⟨.nil, .nil, .nil⟩

theorem Ends.cons {c : Char} (h : c.isDigit = false ∧ c ∉ ['.', 'e', 'E']) : Ends (c :: text) := by
  obtain ⟨hdigit, hc⟩ := h
  simp only [List.mem_cons, List.not_mem_nil, or_false, not_or] at hc
  exact ⟨.cons hdigit, .cons (by simpa using hc.1), .cons (by simpa using hc.2)⟩

theorem Blank.ends {blank : List Char} (h : Blank blank) : Ends blank := by
  cases blank with
  | nil => exact .nil
  | cons c blank =>
    have hc := h c List.mem_cons_self
    simp only [List.mem_cons, List.not_mem_nil, or_false] at hc
    rcases hc with rfl | rfl | rfl | rfl <;> exact .cons (by decide)

theorem tokens_nil : tokens [] = [] := tokens_of_blank rfl

theorem Lexed.of_tokens {ts : List Token} (h : ∀ rest, Ends rest → tokens (text ++ rest) = ts ++ tokens rest) :
    tokens text = ts ∧ Lexed text := by
  have htext := h [] .nil
  rw [List.append_nil, tokens_nil, List.append_nil] at htext
  exact ⟨htext, fun rest hrest => htext ▸ h rest hrest⟩

theorem tokens_eq_singleton {token : Token} (h : ∀ rest, Ends rest → tokens (text ++ rest) = token :: tokens rest) :
    tokens text = [token] :=
  (Lexed.of_tokens (h : ∀ rest, Ends rest → tokens (text ++ rest) = [token] ++ tokens rest)).1

theorem tokens_listed {items : List (List Char)} (h : Listed items text) (hitems : ∀ item ∈ items, Lexed item)
    (hrest : Ends rest) :
    tokens (text ++ rest) = separated true (items.map tokens) ++ tokens rest := by
  induction h with
  | none hblank => exact tokens_blank_append hblank rest
  | last hbefore hafter =>
    rw [List.append_assoc, List.append_assoc, tokens_blank_append hbefore,
      hitems _ List.mem_cons_self _ (hafter.ends.append hrest), tokens_blank_append hafter]
    simp [separated]
  | @more before item after next later items hbefore hafter _ ih =>
    have hlater := ih fun item hitem => hitems item (List.mem_cons_of_mem _ hitem)
    have hends : Ends (after ++ ',' :: (later ++ rest)) := hafter.ends.append (.cons (by decide))
    simp only [List.append_assoc, List.cons_append]
    rw [tokens_blank_append hbefore, hitems _ List.mem_cons_self _ hends, tokens_blank_append hafter, tokens_comma,
      hlater]
    simp [separated]

theorem MemberText.lexed {member : Member} (h : MemberText member text) (hvalue : Lexed member.value) :
    tokens text = member.tokens ∧ Lexed text := by
  cases h with
  | @mk key before after hkey hbefore hafter =>
    refine Lexed.of_tokens fun rest hrest => ?_
    have hquoted := tokens_spelled hkey (before ++ (':' :: (after ++ (member.value ++ rest))))
    simp only [List.append_assoc, List.cons_append] at hquoted ⊢
    rw [hquoted, tokens_blank_append hbefore, tokens_colon, tokens_blank_append hafter, hvalue rest hrest,
      Member.tokens, String.ofList_toList]
    rfl

theorem lexed_members {members : List Member} {texts : List (List Char)} (h : List.Forall₂ MemberText members texts)
    (hvalues : ∀ member ∈ members, Lexed member.value) :
    texts.map tokens = members.map Member.tokens ∧ ∀ text ∈ texts, Lexed text := by
  induction h with
  | nil => exact ⟨rfl, fun _ h => nomatch h⟩
  | @cons member text members texts hmember _ ih =>
    obtain ⟨htokens, htext⟩ := hmember.lexed (hvalues member List.mem_cons_self)
    obtain ⟨hmap, hall⟩ := ih fun member hmem => hvalues member (List.mem_cons_of_mem _ hmem)
    exact ⟨by rw [List.map_cons, List.map_cons, htokens, hmap], List.forall_mem_cons.mpr ⟨htext, hall⟩⟩

theorem tokens_members {members : List Member} (h : MembersText members text)
    (hvalues : ∀ member ∈ members, Lexed member.value) (hrest : Ends rest) :
    tokens (text ++ rest) = separated true (members.map Member.tokens) ++ tokens rest := by
  obtain ⟨hmembers, hlisted⟩ := h
  obtain ⟨htokens, htexts⟩ := lexed_members hmembers hvalues
  rw [tokens_listed hlisted htexts hrest, htokens]

end Lexed
end Allotment.Json
