/-
Duplex/Proofs/Json/Trees.lean

Written values read back.

The text of a value is its row of tokens (`Token.rowOnto_json`), and the machine
that builds trees makes one tree of that row (`Tree.Machine.foldlM_tokens`).  Both
go through a value part by part, and say what is done with a part wherever it
stands: in the first case whatever text follows, as long as it does not go on a
number, and in the second whatever containers are open around it.  So

    Tree.read? v.chars = some v.tree.

The tree that is read is not `Tree.ofJson v`: control characters come as units
by their numbers, and of a long number only so many digits are held.  Who reads a
text, a truth value or a number of 64 bits does not notice, so a record is read
from the text of a value as it is read from the value (`Record.read?_write`).
-/
import Duplex.Json.Record
import Duplex.Proofs.Json.Records
import Duplex.Proofs.Json.Tokens

namespace Duplex

/-! ### Numbers -/

namespace Numeral

/-- When no digit is left over, all of them were held, and there was room. -/
theorem of_hold_eq {ds : List Char} {held n : Nat} (hheld : held ≤ Text.Decimal.maxWord64)
    (h : hold held ds = (n, 0)) : Nat.ofDigitChars 10 ds held = n ∧ n ≤ Text.Decimal.maxWord64 := by
  induction ds generalizing held with
  | nil =>
    obtain ⟨rfl, -⟩ := Prod.mk.inj h
    exact ⟨rfl, hheld⟩
  | cons d ds ih =>
    simp only [hold] at h
    split at h
    · rename_i hroom
      have hnext := ih hroom h
      rwa [Nat.mul_comm held 10] at hnext
    · cases (Prod.mk.inj h).2

/-- A number that is too large is not held whole. -/
theorem hold_chars_ne {n : Nat} (hn : Text.Decimal.maxWord64 < n) :
    (hold 0 (Text.Decimal.chars n)).2 ≠ 0 := by
  intro h
  have hall : Nat.ofDigitChars 10 (Text.Decimal.chars n) 0 = n :=
    Nat.ofDigitChars_toDigits (by decide) (by decide)
  obtain ⟨hvalue, hroom⟩ := of_hold_eq (Nat.zero_le _) (Prod.ext rfl h)
  omega

/-- A sign and digits, and what follows them. -/
theorem numeral?_signed (negative : Bool) (n : Nat) (cs : List Char) :
    numeral? ((if negative then ['-'] else []) ++ (Text.Decimal.chars n ++ cs)) =
      magnitude? negative (Text.Decimal.chars n ++ cs) := by
  cases negative with
  | true => rfl
  | false =>
    obtain ⟨c, ds, h, hc⟩ := chars_eq_cons n
    simp only [Bool.false_eq_true, if_false, List.nil_append, h, List.cons_append]
    rw [numeral?]
    rintro _ ⟨⟩
    cases hc

/-- Digits that nothing follows are held as far as there is room. -/
theorem magnitude?_chars (negative : Bool) (n : Nat) {rest : List Char} (hr : EndsNumeral rest) :
    magnitude? negative (Text.Decimal.chars n ++ rest) =
      some (⟨negative, (hold 0 (Text.Decimal.chars n)).1, (hold 0 (Text.Decimal.chars n)).2,
        (hold 0 (Text.Decimal.chars n)).2 == 0⟩, rest) := by
  simp [magnitude?, whole?_chars n hr.digits, fraction?_of_ends hr, exponent?_of_ends hr, hold]

/-- Digits are an exponent. -/
theorem power?_chars (negative : Bool) (n : Nat) :
    ∃ e, ∀ rest, EndsDigits rest →
      power? negative (Text.Decimal.chars n ++ rest) = some (some e, rest) := by
  let value : Int := ofDigits (Text.Decimal.chars n)
  refine ⟨if negative then -value else value, fun rest hr => ?_⟩
  unfold power?
  rw [takeWhile_chars n hr]
  split
  · rename_i h
    obtain ⟨c, ds, hn, -⟩ := chars_eq_cons n
    cases hn.symm.trans h
  · rw [dropWhile_chars n hr]

/-- An exponent is read to its end. -/
theorem exponent?_integerChars (i : Int) :
    ∃ e, ∀ rest, EndsDigits rest →
      exponent? ('e' :: (integerChars i ++ rest)) = some (some e, rest) := by
  unfold integerChars
  split
  · exact power?_chars true i.natAbs
  · obtain ⟨c, ds, h, hc⟩ := chars_eq_cons i.natAbs
    obtain ⟨e, he⟩ := power?_chars false i.natAbs
    refine ⟨e, fun rest hr => ?_⟩
    have hread := he rest hr
    rw [h, List.cons_append] at hread ⊢
    simp only [exponent?, decide_true, Bool.true_or, if_true]
    split
    · rename_i hplus
      rw [(List.cons.inj hplus).1] at hc
      cases hc
    · rename_i hminus
      rw [(List.cons.inj hminus).1] at hc
      cases hc
    · exact hread

/-- Digits with an exponent are no whole number. -/
theorem magnitude?_scaled (negative : Bool) (n : Nat) (i : Int) :
    ∃ m, m.plain = false ∧ ∀ rest, EndsDigits rest →
      magnitude? negative (Text.Decimal.chars n ++ ('e' :: (integerChars i ++ rest))) =
        some (m, rest) := by
  obtain ⟨e, he⟩ := exponent?_integerChars i
  refine ⟨⟨negative, (hold 0 (Text.Decimal.chars n)).1,
    (hold 0 (Text.Decimal.chars n)).2 + e, false⟩, rfl, fun rest hr => ?_⟩
  have hends : EndsDigits ('e' :: (integerChars i ++ rest)) := by
    rintro _ ⟨⟩
    rfl
  simp [magnitude?, whole?_chars n hends, fraction?, he rest hr, hold]

end Numeral

namespace Number

open Numeral

/-- What is read of a number. -/
def held (n : Number) : Numeral := ((numeral? n.chars).map (·.1)).getD n.numeral

/-- No number of 64 bits is read where one is too large. -/
theorem natural?_held {i : Int} {most : Nat} (hmost : most ≤ Text.Decimal.maxWord64) :
    (Numeral.natural? ⟨decide (i < 0), (hold 0 (Text.Decimal.chars i.natAbs)).1,
      (hold 0 (Text.Decimal.chars i.natAbs)).2,
      (hold 0 (Text.Decimal.chars i.natAbs)).2 == 0⟩).filter (· ≤ most) =
      (numeral (.whole i)).natural?.filter (· ≤ most) := by
  rcases Nat.lt_or_ge Text.Decimal.maxWord64 i.natAbs with hlarge | hroom
  · have hleft := hold_chars_ne hlarge
    have hnot : ¬ i.natAbs ≤ most := by omega
    by_cases hi : i < 0 <;> simp [Numeral.natural?, numeral, hleft, hi, hnot, Option.filter_some]
  · rw [hold_chars hroom]
    rfl

theorem chars_real (d : Double) : chars (.real d) = (if d.negative then ['-'] else []) ++
    (Text.Decimal.chars d.magnitude.shortest.1 ++
      'e' :: integerChars d.magnitude.shortest.2) := by
  simp only [chars, Numeral.chars, numeral, List.append_assoc]
  rfl

/-- **A number reads back**, so far as there is room for its digits. -/
theorem exists_numeral (n : Number) : ∃ m : Numeral,
    (∀ rest, EndsNumeral rest → numeral? (n.chars ++ rest) = some (m, rest)) ∧
    ∀ most ≤ Text.Decimal.maxWord64,
      m.natural?.filter (· ≤ most) = n.numeral.natural?.filter (· ≤ most) := by
  cases n with
  | whole i =>
    refine ⟨_, fun rest hr => ?_, fun most => natural?_held⟩
    have hchars : chars (.whole i) ++ rest = (if decide (i < 0) = true then ['-'] else []) ++
        (Text.Decimal.chars i.natAbs ++ rest) := by
      by_cases hi : i < 0 <;> simp [chars, integerChars, hi]
    rw [hchars, numeral?_signed, magnitude?_chars _ _ hr]
  | real d =>
    obtain ⟨m, hplain, hm⟩ := magnitude?_scaled d.negative d.magnitude.shortest.1
      d.magnitude.shortest.2
    refine ⟨m, fun rest hr => ?_, fun most _ => ?_⟩
    · rw [chars_real, List.append_assoc, List.append_assoc, List.cons_append, numeral?_signed,
        hm rest hr.digits]
    · simp [Numeral.natural?, numeral, hplain]

theorem held_eq {n : Number} {m : Numeral}
    (h : ∀ rest, EndsNumeral rest → numeral? (n.chars ++ rest) = some (m, rest)) : n.held = m := by
  have hread := h [] endsNumeral_nil
  rw [List.append_nil] at hread
  rw [held, hread, Option.map_some, Option.getD_some]

theorem numeral?_held (n : Number) {rest : List Char} (hr : EndsNumeral rest) :
    numeral? (n.chars ++ rest) = some (n.held, rest) := by
  obtain ⟨m, hm, -⟩ := n.exists_numeral
  rw [held_eq hm, hm rest hr]

/-- All digits of a number of 64 bits are read. -/
theorem held_whole {n : Nat} (hn : n ≤ Text.Decimal.maxWord64) :
    held (.whole n) = ⟨false, n, 0, true⟩ := by
  have hchars : chars (.whole n) = Text.Decimal.chars n := by simp [chars, integerChars]
  apply held_eq
  intro rest hr
  rw [hchars, numeral?_chars hn hr]

/-- Who asks for a number of at most 64 bits is told of the same number. -/
theorem natural?_filter_held (n : Number) {most : Nat} (hmost : most ≤ Text.Decimal.maxWord64) :
    n.held.natural?.filter (· ≤ most) = n.numeral.natural?.filter (· ≤ most) := by
  obtain ⟨m, hm, hsame⟩ := n.exists_numeral
  rw [held_eq hm, hsame most hmost]

/-- A number begins with a digit or a minus sign. -/
theorem chars_eq_cons (n : Number) :
    ∃ c cs, n.chars = c :: cs ∧ (isDigit c = true ∨ c = '-') := by
  cases n with
  | whole i =>
    obtain ⟨c, cs, h, hc⟩ := Numeral.chars_eq_cons i.natAbs
    by_cases hi : i < 0
    · exact ⟨'-', _, by rw [chars, integerChars, if_pos hi], .inr rfl⟩
    · exact ⟨c, cs, by rw [chars, integerChars, if_neg hi, h], .inl hc⟩
  | real d =>
    obtain ⟨c, cs, h, hc⟩ := Numeral.chars_eq_cons d.magnitude.shortest.1
    rw [chars_real, h]
    cases d.negative with
    | false => exact ⟨c, _, rfl, .inl hc⟩
    | true => exact ⟨'-', _, rfl, .inr rfl⟩

end Number

/-! ### Tokens -/

namespace Json

mutual

/-- The tokens of the text of a value. -/
def tokens : Json → List Token
  | .null => [.null]
  | .bool b => [.bool b]
  | .number n => [.number n.held]
  | .text s => [.text (s.toList.map Quoted.glyph)]
  | .array items => .openArray :: (itemsTokens items ++ [.closeArray])
  | .object members => .openObject :: (membersTokens members ++ [.closeObject])

/-- The tokens of items with commas between them. -/
def itemsTokens : List Json → List Token
  | [] => []
  | [v] => tokens v
  | v :: vs => tokens v ++ .comma :: itemsTokens vs

/-- The tokens of members with commas between them. -/
def membersTokens : List (String × Json) → List Token
  | [] => []
  | [(key, v)] => .text (key.toList.map Quoted.glyph) :: .colon :: tokens v
  | (key, v) :: ms =>
    .text (key.toList.map Quoted.glyph) :: .colon :: (tokens v ++ .comma :: membersTokens ms)

end

mutual

/-- The tree of the text of a value. -/
def tree : Json → Tree
  | .null => .null
  | .bool b => .bool b
  | .number n => .number n.held
  | .text s => .text (s.toList.map Quoted.glyph)
  | .array items => .array (itemTrees items)
  | .object members => .object (memberTrees members)

def itemTrees : List Json → List Tree
  | [] => []
  | v :: vs => tree v :: itemTrees vs

def memberTrees : List (String × Json) → List (List Quoted.Glyph × Tree)
  | [] => []
  | (key, v) :: ms => (key.toList.map Quoted.glyph, tree v) :: memberTrees ms

end

end Json

namespace Token

open Numeral Json

theorem rowOnto_number (acc : List Token) (n : Number) {rest : List Char}
    (hr : EndsNumeral rest) :
    rowOnto acc (n.chars ++ rest) = rowOnto (.number n.held :: acc) rest := by
  obtain ⟨c, cs, h, hc⟩ := n.chars_eq_cons
  have hread := n.numeral?_held hr
  rw [h, List.cons_append] at hread ⊢
  have hnext : next? (c :: (cs ++ rest)) = some (.number n.held, rest) := by
    rcases hc with hc | rfl
    · rw [next?_of_isDigit hc, hread]
      rfl
    · simp [next?, mark?, hread]
  apply rowOnto_of_next? _ hnext
  rcases hc with hc | rfl
  · exact isSpace_of_isDigit hc
  · rfl

/-- A mark ends a number. -/
theorem endsNumeral_cons {c : Char} {t : Token} (h : mark? c = some t) (rest : List Char) :
    EndsNumeral (c :: rest) := by
  rintro _ ⟨⟩
  unfold mark? at h
  split at h
  case h_7 => cases h
  all_goals decide

theorem rowOnto_key (acc : List Token) (key : String) (rest : List Char) :
    rowOnto acc (Quoted.write key.toList ++ ':' :: rest) =
      rowOnto (.colon :: .text (key.toList.map Quoted.glyph) :: acc) rest := by
  rw [rowOnto_write, rowOnto_mark rfl]

mutual

/-- **The text of a value is its row of tokens.** -/
theorem rowOnto_json (acc : List Token) {rest : List Char} (hr : EndsNumeral rest) : (v : Json) →
    rowOnto acc (v.chars ++ rest) = rowOnto (v.tokens.reverse ++ acc) rest
  | .null => rowOnto_of_next? rfl rfl
  | .bool true => rowOnto_of_next? rfl rfl
  | .bool false => rowOnto_of_next? rfl rfl
  | .number n => rowOnto_number acc n hr
  | .text s => rowOnto_write acc s.toList rest
  | .array items => by
    have hitems := rowOnto_items (.openArray :: acc)
      (endsNumeral_cons (c := ']') rfl rest) items
    rw [Json.chars, List.cons_append, List.append_assoc, rowOnto_mark rfl, List.singleton_append,
      hitems, rowOnto_mark rfl]
    simp [Json.tokens]
  | .object members => by
    have hmembers := rowOnto_members (.openObject :: acc)
      (endsNumeral_cons (c := '\x7d') rfl rest) members
    rw [Json.chars, List.cons_append, List.append_assoc, rowOnto_mark rfl, List.singleton_append,
      hmembers, rowOnto_mark rfl]
    simp [Json.tokens]

theorem rowOnto_items (acc : List Token) {rest : List Char} (hr : EndsNumeral rest) :
    (vs : List Json) →
    rowOnto acc (itemsChars vs ++ rest) = rowOnto ((itemsTokens vs).reverse ++ acc) rest
  | [] => rfl
  | [v] => rowOnto_json acc hr v
  | v :: v' :: vs => by
    have hfirst := rowOnto_json acc
      (endsNumeral_cons (c := ',') rfl (itemsChars (v' :: vs) ++ rest)) v
    have hchars : itemsChars (v :: v' :: vs) = v.chars ++ ',' :: itemsChars (v' :: vs) := rfl
    rw [hchars, List.append_assoc, List.cons_append, hfirst, rowOnto_mark rfl,
      rowOnto_items _ hr (v' :: vs)]
    simp [itemsTokens]

theorem rowOnto_members (acc : List Token) {rest : List Char} (hr : EndsNumeral rest) :
    (ms : List (String × Json)) →
    rowOnto acc (membersChars ms ++ rest) = rowOnto ((membersTokens ms).reverse ++ acc) rest
  | [] => rfl
  | [(key, v)] => by
    rw [membersChars, List.append_assoc, List.cons_append, rowOnto_key, rowOnto_json _ hr v]
    simp [membersTokens]
  | (key, v) :: m :: ms => by
    have hfirst := rowOnto_json (.colon :: .text (key.toList.map Quoted.glyph) :: acc)
      (endsNumeral_cons (c := ',') rfl (membersChars (m :: ms) ++ rest)) v
    have hchars : membersChars ((key, v) :: m :: ms) = Quoted.write key.toList ++
        ':' :: (v.chars ++ ',' :: membersChars (m :: ms)) := rfl
    rw [hchars, List.append_assoc, List.cons_append, rowOnto_key, List.append_assoc,
      List.cons_append, hfirst, rowOnto_mark rfl, rowOnto_members _ hr (m :: ms)]
    simp [membersTokens]

end

/-- The text of a value has the tokens of the value. -/
theorem row?_chars (v : Json) : row? v.chars = some v.tokens := by
  have hrow := rowOnto_json [] endsNumeral_nil v
  rw [List.append_nil, List.append_nil] at hrow
  rw [row?, hrow, rowOnto, List.reverse_reverse]

end Token

/-! ### Trees -/

namespace Tree.Machine

open Json

/-- Right behind an opening bracket an item is taken like anywhere else. -/
theorem foldlM_firstItem (levels : List Level) (v : Json) (vs : List Json) (ts : List Token) :
    (itemsTokens (v :: vs) ++ ts).foldlM step ⟨levels, .firstItem⟩ =
      (itemsTokens (v :: vs) ++ ts).foldlM step ⟨levels, .value⟩ := by
  cases vs <;> cases v <;> rfl

/-- Right behind an opening brace a member is taken like anywhere else. -/
theorem foldlM_firstKey (levels : List Level) (m : String × Json) (ms : List (String × Json))
    (ts : List Token) :
    (membersTokens (m :: ms) ++ ts).foldlM step ⟨levels, .firstKey⟩ =
      (membersTokens (m :: ms) ++ ts).foldlM step ⟨levels, .key⟩ := by
  cases ms <;> rfl

/-- A key and a colon. -/
theorem foldlM_key (levels : List Level) (done : List (List Quoted.Glyph × Tree))
    (gs : List Quoted.Glyph) (ts : List Token) :
    (.text gs :: .colon :: ts).foldlM step ⟨.members done :: levels, .key⟩ =
      ts.foldlM step ⟨.pending done gs :: levels, .value⟩ := rfl

mutual

/-- **The tokens of a value are taken as its tree**, in whatever containers it stands. -/
theorem foldlM_tokens (levels : List Level) : (v : Json) →
    v.tokens.foldlM step ⟨levels, .value⟩ = place v.tree levels
  | .null | .bool _ | .number _ | .text _ => by simp [tokens, tree, step, value]
  | .array [] => by simp [tokens, tree, itemsTokens, itemTrees, step, value, more]
  | .array (v :: vs) => by
    have hitems := foldlM_items levels [] (v :: vs) (List.cons_ne_nil v vs)
    have hopen : step ⟨levels, .value⟩ .openArray = some ⟨.items [] :: levels, .firstItem⟩ := rfl
    rw [tokens, List.foldlM_cons, hopen]
    show (itemsTokens (v :: vs) ++ [Token.closeArray]).foldlM step
      ⟨.items [] :: levels, .firstItem⟩ = _
    rw [foldlM_firstItem, List.foldlM_append, hitems]
    simp [step, more, tree]
  | .object [] => by simp [tokens, tree, membersTokens, memberTrees, step, value, more]
  | .object (m :: ms) => by
    have hmembers := foldlM_members levels [] (m :: ms) (List.cons_ne_nil m ms)
    have hopen : step ⟨levels, .value⟩ .openObject = some ⟨.members [] :: levels, .firstKey⟩ := rfl
    rw [tokens, List.foldlM_cons, hopen]
    show (membersTokens (m :: ms) ++ [Token.closeObject]).foldlM step
      ⟨.members [] :: levels, .firstKey⟩ = _
    rw [foldlM_firstKey, List.foldlM_append, hmembers]
    simp [step, more, tree]

theorem foldlM_items (levels : List Level) (done : List Tree) : (vs : List Json) → vs ≠ [] →
    (itemsTokens vs).foldlM step ⟨.items done :: levels, .value⟩ =
      some ⟨.items ((itemTrees vs).reverse ++ done) :: levels, .more⟩
  | [v], _ => foldlM_tokens (.items done :: levels) v
  | v :: v' :: vs, _ => by
    have htokens : itemsTokens (v :: v' :: vs) = v.tokens ++ .comma :: itemsTokens (v' :: vs) := rfl
    rw [htokens, List.foldlM_append, foldlM_tokens (.items done :: levels) v]
    show (itemsTokens (v' :: vs)).foldlM step ⟨.items (v.tree :: done) :: levels, .value⟩ = _
    rw [foldlM_items levels (v.tree :: done) (v' :: vs) (List.cons_ne_nil v' vs)]
    simp [itemTrees]

theorem foldlM_members (levels : List Level) (done : List (List Quoted.Glyph × Tree)) :
    (ms : List (String × Json)) → ms ≠ [] →
    (membersTokens ms).foldlM step ⟨.members done :: levels, .key⟩ =
      some ⟨.members ((memberTrees ms).reverse ++ done) :: levels, .more⟩
  | [(key, v)], _ => foldlM_tokens (.pending done (key.toList.map Quoted.glyph) :: levels) v
  | (key, v) :: m :: ms, _ => by
    have htokens : membersTokens ((key, v) :: m :: ms) = .text (key.toList.map Quoted.glyph) ::
        .colon :: (v.tokens ++ .comma :: membersTokens (m :: ms)) := rfl
    rw [htokens, foldlM_key, List.foldlM_append,
      foldlM_tokens (.pending done (key.toList.map Quoted.glyph) :: levels) v]
    show (membersTokens (m :: ms)).foldlM step
      ⟨.members ((key.toList.map Quoted.glyph, v.tree) :: done) :: levels, .key⟩ = _
    rw [foldlM_members levels _ (m :: ms) (List.cons_ne_nil m ms)]
    simp [memberTrees]

end

end Tree.Machine

/-- **The text of a value is read as its tree.** -/
theorem Tree.read?_chars (v : Json) : Tree.read? v.chars = some v.tree := by
  have hfold := Machine.foldlM_tokens [] v
  rw [read?, Token.row?_chars, Option.bind_some, ofTokens?, Machine.start, hfold]
  rfl

/-! ### Parts and records -/

namespace Json

/-- What a text of the value is read as by `read?`, it is also read as from the value. -/
def ReadsAlike {β : Type} (read? : Tree → Option β) : Prop :=
  ∀ v : Json, read? v.tree = read? (Tree.ofJson v)

theorem readsAlike_str? : ReadsAlike Tree.str? := by
  intro v
  cases v with
  | text s => exact (Tree.string?_glyphs s).trans (Tree.string?_ofString s).symm
  | _ => rfl

theorem readsAlike_flag? : ReadsAlike Tree.flag? := by
  intro v
  cases v <;> rfl

theorem readsAlike_natural? {most : Nat} (hmost : most ≤ Text.Decimal.maxWord64) :
    ReadsAlike (Tree.natural? most) := by
  intro v
  cases v with
  | number n => exact n.natural?_filter_held hmost
  | _ => rfl

theorem readsAlike_word64? : ReadsAlike Tree.word64? := fun v =>
  congrArg (Option.map UInt64.ofNat) (readsAlike_natural? (Nat.le_refl _) v)

theorem readsAlike_word16? : ReadsAlike Tree.word16? := fun v =>
  congrArg (Option.map UInt16.ofNat) (readsAlike_natural? (by decide) v)

end Json

namespace Field

variable {α β : Type}

/-- The field is read alike from a text and from the value of that text. -/
def ReadsAlike (f : Field α) : Prop :=
  ∀ (v : Json) (a : α), f.set? v.tree a = f.set? (Tree.ofJson v) a

theorem readsAlike_of {read? : Tree → Option β} (h : Json.ReadsAlike read?) (name : String)
    (put : β → α → α) : ReadsAlike (.of name read? put) := by
  intro v a
  simp only [of, h v]

end Field

namespace Record

variable {α : Type} {fields : List (Field α)}

theorem ofMembers?_memberTrees (h : ∀ f ∈ fields, f.ReadsAlike) (seen : List String) (a : α)
    (ms : List (String × Json)) :
    ofMembers? fields seen a (Json.memberTrees ms) =
      ofMembers? fields seen a (Tree.ofMembers ms) := by
  induction ms generalizing seen a with
  | nil => rfl
  | cons m ms ih =>
    obtain ⟨key, v⟩ := m
    simp only [Json.memberTrees, Tree.ofMembers, ofMembers?, Tree.string?_glyphs,
      Tree.string?_ofString]
    cases hf : fields.find? (·.name == key) with
    | none => exact ih seen a
    | some f =>
      simp only [h f (List.mem_of_find?_eq_some hf) v a]
      split
      · rfl
      · split
        · rfl
        · exact ih _ _

theorem ofItems?_itemTrees (h : ∀ f ∈ fields, f.ReadsAlike) (a : α) (vs : List Json) :
    ofItems? a fields (Json.itemTrees vs) = ofItems? a fields (Tree.ofItems vs) := by
  induction vs generalizing fields a with
  | nil => rfl
  | cons v vs ih =>
    cases fields with
    | nil => rfl
    | cons f fields =>
      obtain ⟨hf, hfields⟩ := List.forall_mem_cons.mp h
      simp only [Json.itemTrees, Tree.ofItems, ofItems?, hf v a]
      split
      · rfl
      · exact ih hfields _

/-- A record is a part that is read alike, if its fields are. -/
theorem readsAlike_ofTree? (h : ∀ f ∈ fields, f.ReadsAlike) (start : α) :
    Json.ReadsAlike (ofTree? fields start) := by
  intro v
  cases v with
  | array items => exact ofItems?_itemTrees h start items
  | object members => exact ofMembers?_memberTrees h [] start members
  | _ => rfl

/-- **A record is read from the text of a value as it is read from the value.** -/
theorem read?_write (h : ∀ f ∈ fields, f.ReadsAlike) (start : α) (v : Json) :
    read? fields start v.write = ofTree? fields start (Tree.ofJson v) := by
  rw [read?, Json.write, String.toList_ofList, Tree.read?_chars, Option.bind_some]
  exact readsAlike_ofTree? h start v

end Record

end Duplex
