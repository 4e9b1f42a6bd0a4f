/-
Duplex/Proofs/Frame/Grammar.lean

The grammar of payloads.

What a client may say is written down here without a word about how it is
read: `Quoted.Denotes` says which characters may stand between two quotation
marks and what they denote, and `Payload.Denotes` how quoted texts, commas,
brackets and gaps make a payload.  Reading accepts exactly this
(`messages?_eq_some_iff`).

A quoted text is read in two passes, and the proof goes through what the first
one leaves to the second, a row of glyphs (`Quoted.Spelt`).  Scanning is right
about the spelling of glyphs in both directions, and joining about what they
denote; only the second pass knows of surrogate pairs.  An array is read item
by item, and both directions are inductions on its items with whatever follows
the closing bracket as a parameter.
-/
import Duplex.Proofs.Frame.Readback
import Duplex.Proofs.Text.Utf8
import Duplex.World.Basic
import Mathlib.Algebra.Group.Nat.Defs
import Mathlib.Data.List.TakeWhile

namespace Duplex

namespace Quoted

/-! ### Characters between quotation marks -/

/-- A hexadecimal digit of either case, and its value. -/
def IsHex (c : Char) (v : Nat) : Prop :=
  "0123456789abcdef".toList[v]? = some c ∨ "0123456789ABCDEF".toList[v]? = some c

/-- Four hexadecimal digits, and the 16-bit unit that they stand for. -/
def IsUnit (cs : List Char) (n : Nat) : Prop :=
  ∃ c₁ c₂ c₃ c₄ v₁ v₂ v₃ v₄, cs = [c₁, c₂, c₃, c₄] ∧
    IsHex c₁ v₁ ∧ IsHex c₂ v₂ ∧ IsHex c₃ v₃ ∧ IsHex c₄ v₄ ∧
    n = v₁ * 16 ^ 3 + v₂ * 16 ^ 2 + v₃ * 16 + v₄

/-- The characters that may follow a backslash by themselves, and what they stand for. -/
def shortEscapes : List (Char × Char) :=
  [('"', '"'), ('\\', '\\'), ('/', '/'), ('b', '\x08'), ('f', '\x0c'), ('n', '\n'), ('r', '\r'),
    ('t', '\t')]

/-- What may stand between two quotation marks, and the characters that it denotes. -/
inductive Denotes : List Char → List Char → Prop
  | nil : Denotes [] []
  | plain {c cs m} : ' ' ≤ c → c ≠ '"' → c ≠ '\\' → Denotes cs m → Denotes (c :: cs) (c :: m)
  | short {e c cs m} : (e, c) ∈ shortEscapes → Denotes cs m → Denotes ('\\' :: e :: cs) (c :: m)
  /-- A unit stands for the character of that number; no character has the number of a surrogate. -/
  | unit {u n c cs m} : IsUnit u n → c.toNat = n → Denotes cs m →
      Denotes ('\\' :: 'u' :: (u ++ cs)) (c :: m)
  | pair {u v high low c cs m} : IsUnit u high → IsUnit v low →
      0xD800 ≤ high → high ≤ 0xDBFF → 0xDC00 ≤ low → low ≤ 0xDFFF →
      c.toNat = 0x10000 + (high - 0xD800) * 0x400 + (low - 0xDC00) → Denotes cs m →
      Denotes ('\\' :: 'u' :: (u ++ '\\' :: 'u' :: (v ++ cs))) (c :: m)

/-! ### Digits and escapes -/

theorem hexDigit?_of_isHex {c : Char} {v : Nat} (h : IsHex c v) : hexDigit? c = some v := by
  have lower : ∀ v < 16, ("0123456789abcdef".toList[v]?).bind hexDigit? = some v := by decide
  have upper : ∀ v < 16, ("0123456789ABCDEF".toList[v]?).bind hexDigit? = some v := by decide
  rcases h with h | h
  · have hv : v < 16 := (List.getElem?_eq_some_iff.mp h).1
    simpa only [h, Option.bind_some] using lower v hv
  · have hv : v < 16 := (List.getElem?_eq_some_iff.mp h).1
    simpa only [h, Option.bind_some] using upper v hv

instance (c : Char) (v : Nat) : Decidable (IsHex c v) := inferInstanceAs (Decidable (_ ∨ _))

theorem toNat_lt_of_hexDigit? {c : Char} {v : Nat} (h : hexDigit? c = some v) :
    c.toNat < 128 := by
  have below {d : Char} (hd : c ≤ d) (hl : d.toNat < 128) : c.toNat < 128 :=
    Nat.lt_of_le_of_lt (UInt32.le_iff_toNat_le.mp hd) hl
  simp only [hexDigit?, Bool.and_eq_true, decide_eq_true_eq] at h
  split at h
  case isTrue hd => exact below hd.2 (by decide)
  split at h
  case isTrue hd => exact below hd.2 (by decide)
  split at h
  case isTrue hd => exact below hd.2 (by decide)
  cases h

theorem isHex_of_hexDigit? {c : Char} {v : Nat} (h : hexDigit? c = some v) : IsHex c v := by
  have ascii : ∀ n < 128, ∀ v ∈ (hexDigit? (Char.ofNat n)).toList, IsHex (Char.ofNat n) v := by
    decide
  have hc := ascii c.toNat (toNat_lt_of_hexDigit? h) v
  rw [Char.ofNat_toNat] at hc
  exact hc (Option.mem_toList.mpr h)

theorem IsUnit.eq_four {cs : List Char} {n : Nat} (h : IsUnit cs n) :
    ∃ a b c d, cs = [a, b, c, d] := by
  obtain ⟨a, b, c, d, _, _, _, _, rfl, -⟩ := h
  exact ⟨a, b, c, d, rfl⟩

theorem hexUnit?_eq_some {a b c d : Char} {n : Nat} :
    hexUnit? a b c d = some n ↔ IsUnit [a, b, c, d] n := by
  constructor
  · intro h
    unfold hexUnit? at h
    split at h
    · rename_i v₁ v₂ v₃ v₄ h₁ h₂ h₃ h₄
      refine ⟨a, b, c, d, v₁, v₂, v₃, v₄, rfl, isHex_of_hexDigit? h₁, isHex_of_hexDigit? h₂,
        isHex_of_hexDigit? h₃, isHex_of_hexDigit? h₄, ?_⟩
      have := Option.some.inj h
      omega
    · cases h
  · rintro ⟨_, _, _, _, v₁, v₂, v₃, v₄, ⟨⟩, h₁, h₂, h₃, h₄, rfl⟩
    simp only [hexUnit?, hexDigit?_of_isHex h₁, hexDigit?_of_isHex h₂, hexDigit?_of_isHex h₃,
      hexDigit?_of_isHex h₄, Option.some.injEq]
    omega

theorem shortEscape?_eq_some {e c : Char} :
    shortEscape? e = some c ↔ (e, c) ∈ shortEscapes := by
  constructor
  · intro h
    unfold shortEscape? at h
    split at h
    case h_9 => cases h
    all_goals
      cases h
      decide
  · intro h
    have table : ∀ p ∈ shortEscapes, shortEscape? p.1 = some p.2 := by decide
    exact table _ h

/-! ### First pass: glyphs -/

/-- How a row of glyphs is spelt. -/
inductive Spelt : List Char → List Glyph → Prop
  | nil : Spelt [] []
  | plain {c cs gs} : ' ' ≤ c → c ≠ '"' → c ≠ '\\' → Spelt cs gs → Spelt (c :: cs) (.char c :: gs)
  | short {e c cs gs} : (e, c) ∈ shortEscapes → Spelt cs gs →
      Spelt ('\\' :: e :: cs) (.char c :: gs)
  | unit {u n cs gs} : IsUnit u n → Spelt cs gs → Spelt ('\\' :: 'u' :: (u ++ cs)) (.unit n :: gs)

/-- What is spelt is scanned, up to the quotation mark behind it. -/
theorem Spelt.scan {cs : List Char} {gs : List Glyph} (h : Spelt cs gs) (acc : List Glyph)
    (rest : List Char) : Quoted.scan acc (cs ++ '"' :: rest) = some (acc.reverse ++ gs, rest) := by
  induction h generalizing acc with
  | nil => simp [Quoted.scan]
  | @plain c cs gs hs hq hb h ih =>
    have hn : ¬ c < ' ' := Char.not_lt.mpr hs
    simp [Quoted.scan, hb, hn, ih]
  | @short e c cs gs he h ih =>
    have hu : e ≠ 'u' := by
      rintro rfl
      revert he
      simp [shortEscapes]
    simp [Quoted.scan, shortEscape?_eq_some.mpr he, hu, ih]
  | @unit u n cs gs hu h ih =>
    obtain ⟨a, b, c, d, rfl⟩ := hu.eq_four
    simp [Quoted.scan, hexUnit?_eq_some.mpr hu, ih]

/-- What is scanned was spelt, up to a quotation mark. -/
theorem spelt_of_scan {acc gs : List Glyph} {cs rest : List Char}
    (h : scan acc cs = some (gs, rest)) :
    ∃ body gs', cs = body ++ '"' :: rest ∧ gs = acc.reverse ++ gs' ∧ Spelt body gs' := by
  fun_induction scan acc cs with
  | case1 => cases h
  | case2 acc rest' =>
    obtain ⟨rfl, rfl⟩ := Prod.mk.inj (Option.some.inj h)
    exact ⟨[], [], rfl, (List.append_nil _).symm, .nil⟩
  | case3 acc a b c d cs n hn ih =>
    obtain ⟨body, gs', rfl, rfl, hs⟩ := ih h
    exact ⟨_, _, rfl, by simp, .unit (hexUnit?_eq_some.mp hn) hs⟩
  | case4 => cases h
  | case5 acc e cs _ c hc ih =>
    obtain ⟨body, gs', rfl, rfl, hs⟩ := ih h
    exact ⟨_, _, rfl, by simp, .short (shortEscape?_eq_some.mp hc) hs⟩
  | case6 => cases h
  | case7 => cases h
  | case8 acc c cs hq _ _ hn ih =>
    simp only [Bool.or_eq_true, decide_eq_true_eq, not_or] at hn
    obtain ⟨body, gs', hcs, rfl, hs⟩ := ih h
    exact ⟨c :: body, .char c :: gs', by rw [hcs]; rfl, by simp,
      .plain (Char.not_lt.mp hn.2) hq hn.1 hs⟩

/-! ### Second pass: surrogate pairs -/

theorem IsUnit.lt {cs : List Char} {n : Nat} (h : IsUnit cs n) : n < 0x10000 := by
  obtain ⟨c₁, c₂, c₃, c₄, v₁, v₂, v₃, v₄, -, h₁, h₂, h₃, h₄, rfl⟩ := h
  have digit {c : Char} {v : Nat} (h : IsHex c v) : v < 16 := by
    rcases h with h | h
    · exact (List.getElem?_eq_some_iff.mp h).1
    · exact (List.getElem?_eq_some_iff.mp h).1
  have := digit h₁
  have := digit h₂
  have := digit h₃
  have := digit h₄
  omega

/-- A unit that is no surrogate is the number of a character. -/
theorem toNat_ofNat_of_unit {n : Nat} (hn : n < 0x10000) (hh : isHigh n = false)
    (hl : isLow n = false) : (Char.ofNat n).toNat = n := by
  have hv : n.isValidChar := by
    simp only [isHigh, isLow, Bool.and_eq_false_iff, decide_eq_false_iff_not] at hh hl
    unfold Nat.isValidChar
    omega
  exact Text.Utf8.toNat_ofNat hv

theorem toNat_pair {high low : Nat} (hh : isHigh high = true) (hl : isLow low = true) :
    (pair high low).toNat = 0x10000 + (high - 0xD800) * 0x400 + (low - 0xDC00) := by
  have hv : (0x10000 + (high - 0xD800) * 0x400 + (low - 0xDC00)).isValidChar := by
    simp only [isHigh, isLow, Bool.and_eq_true, decide_eq_true_eq] at hh hl
    unfold Nat.isValidChar
    omega
  exact Text.Utf8.toNat_ofNat hv

theorem isHigh_toNat (c : Char) : isHigh c.toNat = false := by
  have hv : c.toNat.isValidChar := c.valid
  simp only [isHigh, Bool.and_eq_false_iff, decide_eq_false_iff_not]
  unfold Nat.isValidChar at hv
  omega

theorem isLow_toNat (c : Char) : isLow c.toNat = false := by
  have hv : c.toNat.isValidChar := c.valid
  simp only [isLow, Bool.and_eq_false_iff, decide_eq_false_iff_not]
  unfold Nat.isValidChar at hv
  omega

/-- A unit by itself joins as the character of its number, whatever glyphs follow. -/
theorem joinOnto_unit (acc : List Char) (c : Char) (gs : List Glyph) :
    joinOnto acc (.unit c.toNat :: gs) = joinOnto (c :: acc) gs := by
  have hh := isHigh_toNat c
  have hl := isLow_toNat c
  rcases gs with - | ⟨g, gs⟩
  · simp [joinOnto, hh, hl]
  · cases g with
    | char d => simp [joinOnto, hh, hl]
    | unit m => simp [joinOnto, hh, hl]

/-- Glyphs that join are spelt by what denotes their characters. -/
theorem Spelt.denotes {cs : List Char} {gs : List Glyph} (h : Spelt cs gs) {acc ds : List Char}
    (hj : joinOnto acc gs = some ds) : ∃ m, ds = acc.reverse ++ m ∧ Denotes cs m := by
  fun_induction joinOnto acc gs generalizing cs with
  | case1 acc =>
    cases h
    exact ⟨[], by simpa using (Option.some.inj hj).symm, .nil⟩
  | case2 acc c gs ih =>
    cases h with
    | plain hs hq hb h =>
      obtain ⟨m, rfl, hd⟩ := ih h hj
      exact ⟨c :: m, by simp, .plain hs hq hb hd⟩
    | short he h =>
      obtain ⟨m, rfl, hd⟩ := ih h hj
      exact ⟨c :: m, by simp, .short he hd⟩
  | case3 acc n m gs hh hl ih =>
    -- a high and a low unit make one character
    obtain - | - | - | ⟨hu, - | - | - | ⟨hv, h⟩⟩ := h
    obtain ⟨ms, rfl, hd⟩ := ih h hj
    have hp := toNat_pair hh hl
    simp only [isHigh, isLow, Bool.and_eq_true, decide_eq_true_eq] at hh hl
    exact ⟨pair n m :: ms, by simp, .pair hu hv hh.1 hh.2 hl.1 hl.2 hp hd⟩
  | case4 => cases hj
  | case5 => cases hj
  | case6 acc n m gs hh hl ih =>
    -- a unit of no pair is a character by itself
    obtain - | - | - | ⟨hu, h⟩ := h
    obtain ⟨ms, rfl, hd⟩ := ih h hj
    exact ⟨_ :: ms, by simp, .unit hu (toNat_ofNat_of_unit hu.lt (by simpa using hh)
      (by simpa using hl)) hd⟩
  | case7 => cases hj
  | case8 acc n gs _ hs ih =>
    obtain - | - | - | ⟨hu, h⟩ := h
    obtain ⟨ms, rfl, hd⟩ := ih h hj
    simp only [Bool.or_eq_true, not_or, Bool.not_eq_true] at hs
    exact ⟨_ :: ms, by simp, .unit hu (toNat_ofNat_of_unit hu.lt hs.1 hs.2) hd⟩

/-- What denotes characters spells glyphs that join to them. -/
theorem Denotes.spelt {cs m : List Char} (h : Denotes cs m) :
    ∃ gs, Spelt cs gs ∧ ∀ acc, joinOnto acc gs = some (acc.reverse ++ m) := by
  induction h with
  | nil => exact ⟨[], .nil, fun acc => by simp [joinOnto]⟩
  | @plain c cs m hs hq hb _ ih =>
    obtain ⟨gs, hsp, hj⟩ := ih
    exact ⟨.char c :: gs, .plain hs hq hb hsp, fun acc => by simp [joinOnto, hj]⟩
  | @short e c cs m he _ ih =>
    obtain ⟨gs, hsp, hj⟩ := ih
    exact ⟨.char c :: gs, .short he hsp, fun acc => by simp [joinOnto, hj]⟩
  | @unit u n c cs m hu hc _ ih =>
    obtain ⟨gs, hsp, hj⟩ := ih
    refine ⟨.unit n :: gs, .unit hu hsp, fun acc => ?_⟩
    rw [← hc, joinOnto_unit, hj]
    simp
  | @pair u v high low c cs m hu hv h₁ h₂ h₃ h₄ hc _ ih =>
    obtain ⟨gs, hsp, hj⟩ := ih
    have hh : isHigh high = true := by simp [isHigh, h₁, h₂]
    have hl : isLow low = true := by simp [isLow, h₃, h₄]
    have hp : Quoted.pair high low = c := Char.toNat_inj.mp ((toNat_pair hh hl).trans hc.symm)
    refine ⟨.unit high :: .unit low :: gs, .unit hu (.unit hv hsp), fun acc => ?_⟩
    simp [joinOnto, hh, hl, hp, hj]

end Quoted

/-! ### Quoted texts, gaps and items -/

namespace Payload

/-- **A quoted text is read off the front exactly when it stands there.** -/
theorem quoted?_eq_some {cs rest : List Char} {m : String} :
    quoted? cs = some (m, rest) ↔
      ∃ body, cs = body ++ '"' :: rest ∧ Quoted.Denotes body m.toList := by
  constructor
  · intro h
    unfold quoted? at h
    split at h
    · cases h
    · rename_i gs rest' hscan
      obtain ⟨ds, hj, he⟩ := Option.map_eq_some_iff.mp h
      obtain ⟨rfl, rfl⟩ := Prod.mk.inj he
      obtain ⟨body, gs', rfl, rfl, hs⟩ := Quoted.spelt_of_scan hscan
      obtain ⟨m, rfl, hd⟩ := hs.denotes hj
      exact ⟨body, rfl, by simpa using hd⟩
  · rintro ⟨body, rfl, hd⟩
    obtain ⟨gs, hs, hj⟩ := hd.spelt
    simp [quoted?, hs.scan, Quoted.join?, hj]

/-- Nothing but spaces, line feeds, carriage returns and tabs. -/
def IsGap (cs : List Char) : Prop := ∀ c ∈ cs, c ∈ [' ', '\n', '\r', '\t']

/-- A quoted text, and the message that it denotes. -/
def IsText (cs : List Char) (m : String) : Prop :=
  ∃ body, cs = '"' :: (body ++ ['"']) ∧ Quoted.Denotes body m.toList

/-- One or more quoted texts with single commas between them and gaps around each. -/
inductive Items : List Char → List String → Prop
  | last {a t b m} : IsGap a → IsText t m → IsGap b → Items (a ++ t ++ b) [m]
  | more {a t b m cs ms} : IsGap a → IsText t m → IsGap b → Items cs ms →
      Items (a ++ t ++ b ++ ',' :: cs) (m :: ms)

/-- What a payload is without the gaps around it: one quoted text, or an array of them. -/
inductive Core : List Char → List String → Prop
  | single {t m} : IsText t m → Core t [m]
  | empty {a} : IsGap a → Core ('[' :: (a ++ [']'])) []
  | array {cs ms} : Items cs ms → Core ('[' :: (cs ++ [']'])) ms

/-- What a client may say, and the messages that it says. -/
def Denotes (cs : List Char) (ms : List String) : Prop :=
  ∃ a core b, cs = a ++ core ++ b ∧ IsGap a ∧ IsGap b ∧ Core core ms

/-! ### Gaps -/

theorem isSpace_iff {c : Char} : Token.isSpace c = true ↔ c ∈ [' ', '\n', '\r', '\t'] := by
  simp only [Token.isSpace, Bool.or_eq_true, beq_iff_eq, List.mem_cons, List.not_mem_nil, or_false,
    or_assoc]

theorem isOver_iff {cs : List Char} : isOver cs = true ↔ IsGap cs := by
  simp only [isOver, skip, List.isEmpty_iff, List.dropWhile_eq_nil_iff, isSpace_iff, IsGap]

/-- What is skipped is a gap. -/
theorem exists_gap_skip (cs : List Char) : ∃ a, IsGap a ∧ cs = a ++ skip cs :=
  ⟨cs.takeWhile Token.isSpace, fun _ h => isSpace_iff.mp (List.mem_takeWhile_imp h),
    List.takeWhile_append_dropWhile.symm⟩

theorem skip_gap {a : List Char} (h : IsGap a) (cs : List Char) : skip (a ++ cs) = skip cs := by
  unfold skip
  rw [List.dropWhile_append_of_pos]
  intro c hc
  exact isSpace_iff.mpr (h c hc)

theorem skip_cons {c : Char} (h : Token.isSpace c = false) (cs : List Char) :
    skip (c :: cs) = c :: cs := by
  simp [skip, h]

/-! ### Items -/

theorem IsGap.append {a b : List Char} (ha : IsGap a) (hb : IsGap b) : IsGap (a ++ b) := by
  intro c hc
  exact (List.mem_append.mp hc).elim (ha c) (hb c)

/-- A gap in front of the first item belongs to it. -/
theorem Items.gap {a cs : List Char} {ms : List String} (ha : IsGap a) (h : Items cs ms) :
    Items (a ++ cs) ms := by
  cases h with
  | @last a' t b m ha' ht hb =>
    simpa [List.append_assoc] using Items.last (ha.append ha') ht hb
  | @more a' t b m cs ms ha' ht hb h =>
    simpa [List.append_assoc] using Items.more (ha.append ha') ht hb h

/-- Items that are read were written, with the closing bracket and a gap behind them. -/
theorem items_of_items? {acc ms : List String} {cs : List Char} (h : items? acc cs = some ms) :
    ∃ body b ms', cs = body ++ ']' :: b ∧ IsGap b ∧ ms = acc.reverse ++ ms' ∧ Items body ms' := by
  fun_induction items? acc cs with
  | case1 acc rest hq => cases h
  | case2 acc rest m rest' hq more hs ih =>
    -- a comma follows, and then more items
    obtain ⟨text, rfl, hd⟩ := quoted?_eq_some.mp hq
    obtain ⟨a, ha, hrest⟩ := exists_gap_skip rest'
    obtain ⟨a', ha', hmore⟩ := exists_gap_skip more
    obtain ⟨body, b, ms', hbody, hb, rfl, hi⟩ := ih h
    refine ⟨[] ++ '"' :: (text ++ ['"']) ++ a ++ ',' :: (a' ++ body), b, m :: ms', ?_, hb, by simp,
      .more (by simp [IsGap]) ⟨text, rfl, hd⟩ ha (hi.gap ha')⟩
    rw [hrest, hs, hmore, hbody]
    simp
  | case3 acc rest m rest' hq more hs ho =>
    -- a bracket follows, and after it nothing but a gap
    obtain ⟨text, rfl, hd⟩ := quoted?_eq_some.mp hq
    obtain ⟨a, ha, hrest⟩ := exists_gap_skip rest'
    refine ⟨[] ++ '"' :: (text ++ ['"']) ++ a, more, [m], ?_, isOver_iff.mp ho,
      by simpa using (Option.some.inj h).symm, .last (by simp [IsGap]) ⟨text, rfl, hd⟩ ha⟩
    rw [hrest, hs]
    simp
  | case4 => cases h
  | case5 => cases h
  | case6 => cases h

theorem quoted?_of_isText {t : List Char} {m : String} (h : IsText t m) (rest : List Char) :
    ∃ cs, t ++ rest = '"' :: cs ∧ quoted? cs = some (m, rest) := by
  obtain ⟨body, rfl, hd⟩ := h
  exact ⟨body ++ '"' :: rest, by simp, quoted?_eq_some.mpr ⟨body, rfl, hd⟩⟩

/-- Items that were written are read, whatever gap stands behind the closing bracket. -/
theorem Items.items? {cs : List Char} {ms : List String} (h : Items cs ms) {b : List Char}
    (hb : IsGap b) (acc : List String) :
    Payload.items? acc (skip (cs ++ ']' :: b)) = some (acc.reverse ++ ms) := by
  induction h generalizing acc with
  | @last a t c m ha ht hc =>
    obtain ⟨cs, hcs, hq⟩ := quoted?_of_isText ht (c ++ ']' :: b)
    have hskip : skip (c ++ ']' :: b) = ']' :: b := by rw [skip_gap hc, skip_cons (by decide)]
    rw [List.append_assoc, List.append_assoc, skip_gap ha, hcs, skip_cons (by decide),
      items?_of_end hq hskip (isOver_iff.mpr hb)]
    simp
  | @more a t c m cs ms ha ht hc _ ih =>
    obtain ⟨ds, hds, hq⟩ := quoted?_of_isText ht (c ++ ',' :: (cs ++ ']' :: b))
    have hskip : skip (c ++ ',' :: (cs ++ ']' :: b)) = ',' :: (cs ++ ']' :: b) := by
      rw [skip_gap hc, skip_cons (by decide)]
    have hcs : a ++ t ++ c ++ ',' :: cs ++ ']' :: b =
        a ++ (t ++ (c ++ ',' :: (cs ++ ']' :: b))) := by
      simp
    rw [hcs, skip_gap ha, hds, skip_cons (by decide), items?_of_comma hq hskip, ih]
    simp

/-! ### Payloads -/

/-- The first item of an array is no closing bracket. -/
theorem Items.skip_eq {cs : List Char} {ms : List String} (h : Items cs ms) (rest : List Char) :
    ∃ ds, skip (cs ++ rest) = '"' :: ds := by
  cases h with
  | @last a t b m ha ht hb =>
    obtain ⟨ds, hds, -⟩ := quoted?_of_isText ht (b ++ rest)
    exact ⟨ds, by rw [List.append_assoc, List.append_assoc, skip_gap ha, hds,
      skip_cons (by decide)]⟩
  | @more a t b m cs ms ha ht hb h =>
    obtain ⟨ds, hds, -⟩ := quoted?_of_isText ht (b ++ (',' :: cs ++ rest))
    exact ⟨ds, by rw [List.append_assoc, List.append_assoc, List.append_assoc, skip_gap ha, hds,
      skip_cons (by decide)]⟩

/-- What is read was a payload. -/
theorem denotes_of_read? {cs : List Char} {ms : List String} (h : read? cs = some ms) :
    Denotes cs ms := by
  obtain ⟨a, ha, hcs⟩ := exists_gap_skip cs
  unfold read? at h
  split at h
  -- one quoted text
  · rename_i rest hs
    split at h
    · rename_i m rest' hq
      split at h
      · rename_i ho
        obtain ⟨body, rfl, hd⟩ := quoted?_eq_some.mp hq
        obtain rfl := Option.some.inj h
        exact ⟨a, '"' :: (body ++ ['"']), rest', by rw [hcs, hs]; simp, ha, isOver_iff.mp ho,
          .single ⟨body, rfl, hd⟩⟩
      · cases h
    · cases h
  · rename_i rest hs
    obtain ⟨a', ha', hrest⟩ := exists_gap_skip rest
    split at h
    -- an empty array
    · rename_i more hs'
      split at h
      · rename_i ho
        obtain rfl := Option.some.inj h
        exact ⟨a, '[' :: (a' ++ [']']), more, by rw [hcs, hs, hrest, hs']; simp, ha,
          isOver_iff.mp ho, .empty ha'⟩
      · cases h
    -- an array with items
    · obtain ⟨body, b, ms', hbody, hb, rfl, hi⟩ := items_of_items? h
      exact ⟨a, '[' :: (a' ++ body ++ [']']), b, by rw [hcs, hs, hrest, hbody]; simp, ha, hb,
        .array (hi.gap ha')⟩
  · cases h

/-- What is a payload is read. -/
theorem Denotes.read? {cs : List Char} {ms : List String} (h : Denotes cs ms) :
    Payload.read? cs = some ms := by
  obtain ⟨a, core, b, rfl, ha, hb, h⟩ := h
  have ho := isOver_iff.mpr hb
  rw [Payload.read?, List.append_assoc, skip_gap ha]
  cases h with
  | single ht =>
    obtain ⟨cs, hcs, hq⟩ := quoted?_of_isText ht b
    simp [hcs, skip_cons (c := '"') (by decide), hq, ho]
  | @empty a' ha' =>
    have hs : skip (a' ++ ']' :: b) = ']' :: b := by rw [skip_gap ha', skip_cons (by decide)]
    simp [skip_cons (c := '[') (by decide), hs, ho]
  | @array cs ms hi =>
    obtain ⟨ds, hds⟩ := hi.skip_eq (']' :: b)
    have hitems := hi.items? hb []
    rw [hds] at hitems
    simpa [skip_cons (c := '[') (by decide), hds] using hitems

/-- **Reading accepts exactly the grammar.** -/
theorem messages?_eq_some_iff {payload : String} {ms : List String} :
    messages? payload = some ms ↔ Denotes payload.toList ms :=
  ⟨denotes_of_read?, Denotes.read?⟩

/-- **The grammar of payloads.**  A payload says what the grammar gives it to say; one that is not
in the grammar says nothing and is malformed. -/
theorem messages?_iff_denotes (payload : String) :
    (∀ ms, messages? payload = some ms ↔ Denotes payload.toList ms) ∧
      ((∀ ms, ¬ Denotes payload.toList ms) ↔
        messages? payload = none ∧ World.verdict (messages? payload) = some .malformedFrame) := by
  refine ⟨fun ms => messages?_eq_some_iff, ?_⟩
  rw [← forall_congr' fun ms => not_congr (@messages?_eq_some_iff payload ms),
    ← Option.eq_none_iff_forall_ne_some]
  constructor
  · intro h
    exact ⟨h, by rw [h, World.verdict]⟩
  · intro h
    exact h.1

end Payload

end Duplex
