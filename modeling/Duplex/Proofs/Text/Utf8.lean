/-
Duplex/Proofs/Text/Utf8.lean

The reader of UTF-8 against its writer.

`Reads q bs c` is one character read from the state `q`, byte by byte. From
between two characters it holds of exactly the bytes that `c` is written as
(`reads_start_iff`), so the strict reader takes exactly the byte strings that
some text is written as:

  decode? bytes = some cs ↔ bytes = encode cs        (`decode?_eq_some_iff`).

The lossy reader gives the same text there (`decodeLossy_encode`), and on
every other byte string a text with U+FFFD in it
(`replacement_mem_decodeLossy`).
-/
import Duplex.Text.Utf8
import Mathlib.Algebra.Group.Nat.Defs
import Mathlib.Algebra.GroupWithZero.Nat

namespace Duplex.Text.Utf8

/-- From `q` these bytes finish one character and nothing more. -/
inductive Reads : State → Bytes → Char → Prop where
  | last {q : State} {b : UInt8} {c : Char} (h : feed q b = .done c) : Reads q [b] c
  | next {q q' : State} {b : UInt8} {bs : Bytes} {c : Char} (h : feed q b = .more q')
      (rest : Reads q' bs c) : Reads q (b :: bs) c

/-! ### The bytes after the first -/

/-- The last `owed + 1` bytes that the value `v` is written as, six bits each. -/
def tails : Nat → Nat → Bytes
  | 0, v => [UInt8.ofNat (v % 64 + 128)]
  | owed + 1, v => UInt8.ofNat (v / 64 ^ (owed + 1) % 64 + 128) :: tails owed v

theorem toNat_tail (n : Nat) : (UInt8.ofNat (n % 64 + 128)).toNat = n % 64 + 128 := by
  simp only [UInt8.toNat_ofNat']
  omega

theorem feed_inside_zero {least most b : UInt8} {bits : Nat} {m : Move} :
    feed (.inside 0 least most bits) b = m ↔
      if least.toNat ≤ b.toNat ∧ b.toNat ≤ most.toNat
        then m = .done (Char.ofNat (bits * 64 + (b.toNat - 128))) else m = .refuse := by
  simp only [feed, Bool.and_eq_true, decide_eq_true_eq, UInt8.le_iff_toNat_le]
  split <;> exact eq_comm

theorem feed_inside_succ {owed bits : Nat} {least most b : UInt8} {m : Move} :
    feed (.inside (owed + 1) least most bits) b = m ↔
      if least.toNat ≤ b.toNat ∧ b.toNat ≤ most.toNat
        then m = .more (.inside owed 0x80 0xBF (bits * 64 + (b.toNat - 128)))
        else m = .refuse := by
  simp only [feed, Bool.and_eq_true, decide_eq_true_eq, UInt8.le_iff_toNat_le]
  split <;> exact eq_comm

/-- Inside a character the bytes to come are the last bytes of a value whose first bits were
read before, and the next byte is in its bounds. -/
theorem reads_inside_iff {owed bits : Nat} {least most : UInt8} {bs : Bytes} {c : Char}
    (hl : 128 ≤ least.toNat) (hm : most.toNat ≤ 191) :
    Reads (.inside owed least most bits) bs c ↔
      ∃ v, c = Char.ofNat v ∧ bs = tails owed v ∧ v / 64 ^ (owed + 1) = bits ∧
        least.toNat ≤ v / 64 ^ owed % 64 + 128 ∧ v / 64 ^ owed % 64 + 128 ≤ most.toNat := by
  induction owed generalizing least most bits bs with
  | zero =>
    constructor
    · intro h
      -- one byte is owed: it is the last
      cases h with
      | last h =>
        rename_i b
        rw [feed_inside_zero] at h
        split at h
        · rename_i hb
          refine ⟨bits * 64 + (b.toNat - 128), Move.done.inj h, ?_, by omega, by omega, by omega⟩
          simp only [tails, List.cons.injEq, and_true]
          rw [← UInt8.toNat_inj, toNat_tail]
          omega
        · cases h
      | next h =>
        rw [feed_inside_zero] at h
        split at h <;> cases h
    · rintro ⟨v, rfl, rfl, rfl, h1, h2⟩
      refine .last (feed_inside_zero.mpr ?_)
      have hv : v / 64 ^ (0 + 1) * 64 + (v % 64 + 128 - 128) = v := by omega
      rw [toNat_tail, if_pos ⟨by simpa using h1, by simpa using h2⟩, hv]
  | succ owed ih =>
    -- the byte is read, and one fewer is owed, over the whole range
    have hleast : 128 ≤ (0x80 : UInt8).toNat := by decide
    have hmost : (0xBF : UInt8).toNat ≤ 191 := by decide
    constructor
    · intro h
      cases h with
      | last h =>
        rw [feed_inside_succ] at h
        split at h <;> cases h
      | next h hr =>
        rename_i b _
        rw [feed_inside_succ] at h
        split at h
        · rename_i hb
          obtain rfl := Move.more.inj h
          obtain ⟨v, rfl, rfl, hv, -, -⟩ := (ih hleast hmost).mp hr
          have hv' : v / 64 ^ (owed + 1 + 1) = bits := by
            rw [pow_succ, ← Nat.div_div_eq_div_mul]
            omega
          refine ⟨v, rfl, ?_, hv', by omega, by omega⟩
          simp only [tails, List.cons.injEq, and_true]
          rw [← UInt8.toNat_inj, toNat_tail]
          omega
        · cases h
    · rintro ⟨v, rfl, rfl, rfl, h1, h2⟩
      refine .next (feed_inside_succ.mpr ?_) ((ih hleast hmost).mpr
        ⟨v, rfl, rfl, rfl, ?_, ?_⟩)
      · have hv : v / 64 ^ (owed + 1 + 1) * 64 + (v / 64 ^ (owed + 1) % 64 + 128 - 128) =
            v / 64 ^ (owed + 1) := by
          rw [pow_succ _ (owed + 1), ← Nat.div_div_eq_div_mul]
          omega
        rw [toNat_tail, if_pos ⟨h1, h2⟩, hv]
      · show 128 ≤ _
        omega
      · show _ ≤ 191
        omega

/-! ### The first byte -/

theorem first_one {b : UInt8} (h : b.toNat < 128) : first b = .done (Char.ofNat b.toNat) := by
  have h' : b < 0x80 := UInt8.lt_iff_toNat_lt.mpr h
  rw [first, if_pos h']

theorem first_two {b : UInt8} (h : 194 ≤ b.toNat) (h' : b.toNat < 224) :
    first b = .more (.inside 0 0x80 0xBF (b.toNat - 192)) := by
  simp only [first, UInt8.lt_iff_toNat_lt, UInt8.reduceToNat]
  rw [if_neg (by omega), if_neg (by omega), if_pos (by omega)]

theorem first_three {b : UInt8} (h : 224 ≤ b.toNat) (h' : b.toNat < 240) :
    first b = .more (.inside 1 (if b.toNat = 224 then 0xA0 else 0x80)
      (if b.toNat = 237 then 0x9F else 0xBF) (b.toNat - 224)) := by
  simp only [first, UInt8.lt_iff_toNat_lt, ← UInt8.toNat_inj, UInt8.reduceToNat]
  rw [if_neg (by omega), if_neg (by omega), if_neg (by omega), if_pos (by omega)]

theorem first_four {b : UInt8} (h : 240 ≤ b.toNat) (h' : b.toNat < 245) :
    first b = .more (.inside 2 (if b.toNat = 240 then 0x90 else 0x80)
      (if b.toNat = 244 then 0x8F else 0xBF) (b.toNat - 240)) := by
  simp only [first, UInt8.lt_iff_toNat_lt, ← UInt8.toNat_inj, UInt8.reduceToNat]
  rw [if_neg (by omega), if_neg (by omega), if_neg (by omega), if_neg (by omega),
    if_pos (by omega)]

theorem first_of_lt {b : UInt8} (h : 128 ≤ b.toNat) (h' : b.toNat < 194) :
    first b = .refuse := by
  simp only [first, UInt8.lt_iff_toNat_lt, UInt8.reduceToNat]
  rw [if_neg (by omega), if_pos (by omega)]

theorem first_of_le {b : UInt8} (h : 245 ≤ b.toNat) : first b = .refuse := by
  simp only [first, UInt8.lt_iff_toNat_lt, UInt8.reduceToNat]
  rw [if_neg (by omega), if_neg (by omega), if_neg (by omega), if_neg (by omega),
    if_neg (by omega)]

/-- What a first byte can do: end a character, begin a longer one in one of three ways, or be
refused. -/
theorem first_cases (b : UInt8) :
    (b.toNat < 128 ∧ first b = .done (Char.ofNat b.toNat)) ∨
    (194 ≤ b.toNat ∧ b.toNat < 224 ∧ first b = .more (.inside 0 0x80 0xBF (b.toNat - 192))) ∨
    (224 ≤ b.toNat ∧ b.toNat < 240 ∧
      first b = .more (.inside 1 (if b.toNat = 224 then 0xA0 else 0x80)
        (if b.toNat = 237 then 0x9F else 0xBF) (b.toNat - 224))) ∨
    (240 ≤ b.toNat ∧ b.toNat < 245 ∧
      first b = .more (.inside 2 (if b.toNat = 240 then 0x90 else 0x80)
        (if b.toNat = 244 then 0x8F else 0xBF) (b.toNat - 240))) ∨
    first b = .refuse := by
  rcases Nat.lt_or_ge b.toNat 128 with h1 | h1
  · exact .inl ⟨h1, first_one h1⟩
  rcases Nat.lt_or_ge b.toNat 194 with h2 | h2
  · exact .inr (.inr (.inr (.inr (first_of_lt h1 h2))))
  rcases Nat.lt_or_ge b.toNat 224 with h3 | h3
  · exact .inr (.inl ⟨h2, h3, first_two h2 h3⟩)
  rcases Nat.lt_or_ge b.toNat 240 with h4 | h4
  · exact .inr (.inr (.inl ⟨h3, h4, first_three h3 h4⟩))
  rcases Nat.lt_or_ge b.toNat 245 with h5 | h5
  · exact .inr (.inr (.inr (.inl ⟨h4, h5, first_four h4 h5⟩)))
  · exact .inr (.inr (.inr (.inr (first_of_le h5))))

/-! ### One character -/

theorem toNat_ofNat {n : Nat} (h : n.isValidChar) : (Char.ofNat n).toNat = n := by
  rw [Char.ofNat, dif_pos h]
  rfl

theorem isValidChar_toNat (c : Char) : c.toNat.isValidChar := c.valid

theorem encodeChar_one {c : Char} (h : c.toNat < 128) :
    String.utf8EncodeChar c = [UInt8.ofNat c.toNat] := by
  have h' : c.val.toNat ≤ 127 := Nat.le_of_lt_succ h
  simp only [String.utf8EncodeChar, if_pos h']
  rfl

theorem encodeChar_two {c : Char} (h : 128 ≤ c.toNat) (h' : c.toNat < 2048) :
    String.utf8EncodeChar c = UInt8.ofNat (c.toNat / 64 + 192) :: tails 0 c.toNat := by
  simp only [Char.toNat, String.utf8EncodeChar, tails] at *
  have hv : c.val.toNat / 64 % 32 = c.val.toNat / 64 := by omega
  rw [if_neg (by omega), if_pos (by omega), hv]

theorem encodeChar_three {c : Char} (h : 2048 ≤ c.toNat) (h' : c.toNat < 65536) :
    String.utf8EncodeChar c = UInt8.ofNat (c.toNat / 4096 + 224) :: tails 1 c.toNat := by
  simp only [Char.toNat, String.utf8EncodeChar, tails, Nat.reduceAdd, Nat.reducePow] at *
  have hv : c.val.toNat / 4096 % 16 = c.val.toNat / 4096 := by omega
  rw [if_neg (by omega), if_neg (by omega), if_pos (by omega), hv]

theorem encodeChar_four {c : Char} (h : 65536 ≤ c.toNat) :
    String.utf8EncodeChar c = UInt8.ofNat (c.toNat / 262144 + 240) :: tails 2 c.toNat := by
  have hc := isValidChar_toNat c
  simp only [Char.toNat, Nat.isValidChar, String.utf8EncodeChar, tails, Nat.reduceAdd,
    Nat.reducePow] at *
  have hv : c.val.toNat / 262144 % 8 = c.val.toNat / 262144 := by omega
  rw [if_neg (by omega), if_neg (by omega), if_neg (by omega), hv]

/-- A character is read from what it is written as. -/
theorem reads_encodeChar (c : Char) : Reads .start (String.utf8EncodeChar c) c := by
  have hc := isValidChar_toNat c
  have first_of (n : Nat) (h : n < 256) : (UInt8.ofNat n).toNat = n := by
    rw [UInt8.toNat_ofNat', Nat.mod_eq_of_lt h]
  -- one case for each length of the encoding
  rcases Nat.lt_or_ge c.toNat 128 with h | h
  · rw [encodeChar_one h]
    refine .last ((first_one ?_).trans ?_)
    · rwa [first_of _ (by omega)]
    · rw [first_of _ (by omega), Char.ofNat_toNat]
  rcases Nat.lt_or_ge c.toNat 2048 with h2 | h2
  · rw [encodeChar_two h h2]
    have hb := first_of (c.toNat / 64 + 192) (by omega)
    refine .next (first_two (by omega) (by omega)) ((reads_inside_iff (by decide) (by decide)).mpr
      ⟨c.toNat, (Char.ofNat_toNat c).symm, rfl, by omega, ?_, ?_⟩)
    all_goals simp only [UInt8.reduceToNat, pow_zero, Nat.div_one]; omega
  rcases Nat.lt_or_ge c.toNat 65536 with h3 | h3
  · rw [encodeChar_three h2 h3]
    have hb := first_of (c.toNat / 4096 + 224) (by omega)
    refine .next (first_three (by omega) (by omega)) ((reads_inside_iff ?_ ?_).mpr
      ⟨c.toNat, (Char.ofNat_toNat c).symm, rfl, by omega, ?_, ?_⟩)
    all_goals
      simp only [Nat.isValidChar] at hc
      split <;> simp only [UInt8.reduceToNat, pow_one] <;> omega
  · rw [encodeChar_four h3]
    simp only [Nat.isValidChar] at hc
    have hb := first_of (c.toNat / 262144 + 240) (by omega)
    refine .next (first_four (by omega) (by omega)) ((reads_inside_iff ?_ ?_).mpr
      ⟨c.toNat, (Char.ofNat_toNat c).symm, rfl, by omega, ?_, ?_⟩)
    all_goals split <;> simp only [UInt8.reduceToNat] <;> omega

/-- What a character is read from is what it is written as: the bounds on the second byte leave
each value one length, and no surrogate. -/
theorem encodeChar_of_reads {bs : Bytes} {c : Char} (h : Reads .start bs c) :
    bs = String.utf8EncodeChar c := by
  have head {n : Nat} {b : UInt8} (h : n = b.toNat) : UInt8.ofNat n = b := by
    rw [h, UInt8.ofNat_toNat]
  cases h with
  | last h =>
    rename_i b
    change first b = _ at h
    -- the first byte says how many follow; here none does
    obtain ⟨hb, hf⟩ | ⟨-, -, hf⟩ | ⟨-, -, hf⟩ | ⟨-, -, hf⟩ | hf := first_cases b
    · have hc : c = Char.ofNat b.toNat := Move.done.inj (h.symm.trans hf)
      have hv : c.toNat = b.toNat := hc ▸ toNat_ofNat (.inl (by omega))
      rw [encodeChar_one (by omega), hv, UInt8.ofNat_toNat]
    all_goals cases hf.symm.trans h
  | next h hr =>
    rename_i q b bs
    change first b = _ at h
    -- here one, two or three follow, and the bounds exclude the longer spellings
    obtain ⟨-, hf⟩ | ⟨h1, h2, hf⟩ | ⟨h1, h2, hf⟩ | ⟨h1, h2, hf⟩ | hf := first_cases b
    · cases hf.symm.trans h
    · obtain rfl := Move.more.inj (hf.symm.trans h)
      obtain ⟨v, hc, rfl, hv, -, -⟩ := (reads_inside_iff (by decide) (by decide)).mp hr
      have hcv : c.toNat = v := hc ▸ toNat_ofNat (.inl (by omega))
      rw [encodeChar_two (by omega) (by omega), hcv, head (b := b) (by omega)]
    · obtain rfl := Move.more.inj (hf.symm.trans h)
      obtain ⟨v, hc, rfl, hv, hl, hm⟩ :=
        (reads_inside_iff (by split <;> decide) (by split <;> decide)).mp hr
      have hbounds : 2048 ≤ v ∧ v.isValidChar := by
        unfold Nat.isValidChar
        split at hl <;> split at hm <;> simp only [UInt8.reduceToNat, pow_one] at hl hm <;> omega
      have hcv : c.toNat = v := hc ▸ toNat_ofNat hbounds.2
      rw [encodeChar_three (by omega) (by omega), hcv, head (b := b) (by omega)]
    · obtain rfl := Move.more.inj (hf.symm.trans h)
      obtain ⟨v, hc, rfl, hv, hl, hm⟩ :=
        (reads_inside_iff (by split <;> decide) (by split <;> decide)).mp hr
      have hbounds : 65536 ≤ v ∧ v.isValidChar := by
        unfold Nat.isValidChar
        split at hl <;> split at hm <;> simp only [UInt8.reduceToNat] at hl hm <;> omega
      have hcv : c.toNat = v := hc ▸ toNat_ofNat hbounds.2
      rw [encodeChar_four (by omega), hcv, head (b := b) (by omega)]
    · cases hf.symm.trans h

/-- From between two characters, exactly what `c` is written as is read as `c`. -/
theorem reads_start_iff {bs : Bytes} {c : Char} :
    Reads .start bs c ↔ bs = String.utf8EncodeChar c :=
  ⟨encodeChar_of_reads, fun h => h ▸ reads_encodeChar c⟩

/-! ### Reading what was written -/

theorem decodeOnto_append {q : State} {bs : Bytes} {c : Char} (h : Reads q bs c)
    (acc : List Char) (rest : Bytes) :
    decodeOnto q acc (bs ++ rest) = decodeOnto .start (c :: acc) rest := by
  induction h with
  | last h => simp only [List.cons_append, List.nil_append, decodeOnto, h]
  | next h _ ih => simp only [List.cons_append, decodeOnto, h, ih]

theorem decodeLossyOnto_done {q : State} {b : UInt8} {c : Char} (h : feed q b = .done c)
    (acc : List Char) (rest : Bytes) :
    decodeLossyOnto q acc (b :: rest) = decodeLossyOnto .start (c :: acc) rest := by
  cases q <;> simp only [decodeLossyOnto, h]

theorem decodeLossyOnto_more {q q' : State} {b : UInt8} (h : feed q b = .more q')
    (acc : List Char) (rest : Bytes) :
    decodeLossyOnto q acc (b :: rest) = decodeLossyOnto q' acc rest := by
  cases q <;> simp only [decodeLossyOnto, h]

theorem decodeLossyOnto_append {q : State} {bs : Bytes} {c : Char} (h : Reads q bs c)
    (acc : List Char) (rest : Bytes) :
    decodeLossyOnto q acc (bs ++ rest) = decodeLossyOnto .start (c :: acc) rest := by
  induction h with
  | last h => exact decodeLossyOnto_done h acc rest
  | next h _ ih => rw [List.cons_append, decodeLossyOnto_more h, ih]

theorem decodeOnto_encode (cs acc : List Char) :
    decodeOnto .start acc (encode cs) = some (acc.reverse ++ cs) := by
  induction cs generalizing acc with
  | nil => simp [encode, decodeOnto]
  | cons c cs ih =>
    have hc : encode (c :: cs) = String.utf8EncodeChar c ++ encode cs := List.flatMap_cons
    rw [hc, decodeOnto_append (reads_encodeChar c), ih, List.reverse_cons, List.append_assoc]
    rfl

theorem decodeLossyOnto_encode (cs acc : List Char) :
    decodeLossyOnto .start acc (encode cs) = acc.reverse ++ cs := by
  induction cs generalizing acc with
  | nil => simp [encode, decodeLossyOnto]
  | cons c cs ih =>
    have hc : encode (c :: cs) = String.utf8EncodeChar c ++ encode cs := List.flatMap_cons
    rw [hc, decodeLossyOnto_append (reads_encodeChar c), ih, List.reverse_cons, List.append_assoc]
    rfl

/-- The lossy reader loses nothing of a text. -/
@[simp] theorem decodeLossy_encode (cs : List Char) : decodeLossy (encode cs) = cs :=
  decodeLossyOnto_encode cs []

@[simp] theorem text?_encode (t : String) : text? (encode t.toList) = some t := by
  rw [text?, decode?, decodeOnto_encode]
  simp

/-! ### What else is refused -/

/-- From `q` the bytes are the rest of the text `cs`: whole characters, the first of them begun
before when `q` is inside one. -/
def Finishes : State → Bytes → List Char → Prop
  | .start, bytes, cs => bytes = encode cs
  | .inside owed least most bits, bytes, cs => ∃ c cs' bs,
      Reads (.inside owed least most bits) bs c ∧ bytes = bs ++ encode cs' ∧ cs = c :: cs'

theorem finishes_of_reads {q : State} {bs : Bytes} {c : Char} (h : Reads q bs c)
    (cs : List Char) : Finishes q (bs ++ encode cs) (c :: cs) := by
  cases q with
  | start => rw [encodeChar_of_reads h]; exact List.flatMap_cons.symm
  | inside => exact ⟨c, cs, bs, h, rfl, rfl⟩

/-- A reader that goes on after a byte is inside a character. -/
theorem feed_more_inside {q q' : State} {b : UInt8} (h : feed q b = .more q') :
    ∃ owed least most bits, q' = .inside owed least most bits := by
  cases q with
  | start =>
    obtain ⟨-, hf⟩ | ⟨-, -, hf⟩ | ⟨-, -, hf⟩ | ⟨-, -, hf⟩ | hf := first_cases b
    all_goals cases hf.symm.trans h
    all_goals exact ⟨_, _, _, _, rfl⟩
  | inside owed least most bits =>
    cases owed with
    | zero =>
      rw [feed_inside_zero] at h
      split at h <;> cases h
    | succ =>
      rw [feed_inside_succ] at h
      split at h
      · exact ⟨_, _, _, _, Move.more.inj h⟩
      · cases h

theorem finishes_of_decodeOnto {q : State} {acc cs : List Char} {bytes : Bytes}
    (h : decodeOnto q acc bytes = some cs) :
    ∃ ds, cs = acc.reverse ++ ds ∧ Finishes q bytes ds := by
  induction bytes generalizing q acc with
  | nil =>
    cases q with
    | start => exact ⟨[], by simpa [decodeOnto, eq_comm] using h, rfl⟩
    | inside => simp [decodeOnto] at h
  | cons b bytes ih =>
    rw [decodeOnto] at h
    split at h
    · rename_i c hf
      obtain ⟨ds, rfl, rfl⟩ := ih h
      exact ⟨c :: ds, by simp, finishes_of_reads (.last hf) ds⟩
    · rename_i q' hf
      obtain ⟨owed, least, most, bits, rfl⟩ := feed_more_inside hf
      obtain ⟨ds, rfl, c, cs, bs, hr, rfl, rfl⟩ := ih h
      exact ⟨c :: cs, rfl, finishes_of_reads (.next hf hr) cs⟩
    · cases h

/-- The strict reader takes exactly what a text is written as, and gives that text. -/
theorem decode?_eq_some_iff {bytes : Bytes} {cs : List Char} :
    decode? bytes = some cs ↔ bytes = encode cs := by
  constructor
  · intro h
    obtain ⟨ds, rfl, hb⟩ := finishes_of_decodeOnto h
    exact hb
  · rintro rfl
    exact decodeOnto_encode cs []

theorem text?_eq_none_iff {bytes : Bytes} :
    text? bytes = none ↔ ∀ t : String, bytes ≠ encode t.toList := by
  rw [text?, Option.map_eq_none_iff]
  constructor
  · rintro h t rfl
    cases h.symm.trans (decode?_eq_some_iff.mpr rfl)
  · intro h
    cases hd : decode? bytes with
    | none => rfl
    | some cs => exact absurd (decode?_eq_some_iff.mp hd) (by simpa using h (String.ofList cs))

/-! ### What is put in its place -/

/-- A byte that fits nowhere leaves U+FFFD behind, and what was read before. -/
theorem decodeLossyOnto_refuse {q : State} {b : UInt8} (h : feed q b = .refuse)
    (acc : List Char) (rest : Bytes) : ∃ q' acc', replacement ∈ acc' ∧ acc ⊆ acc' ∧
      decodeLossyOnto q acc (b :: rest) = decodeLossyOnto q' acc' rest := by
  cases q with
  | start => exact ⟨.start, replacement :: acc, by simp, by simp, by simp only [decodeLossyOnto, h]⟩
  | inside =>
    simp only [decodeLossyOnto, h]
    split
    all_goals exact ⟨_, _, by simp, fun c hc => by simp [hc], rfl⟩

theorem mem_decodeLossyOnto {q : State} {acc : List Char} {c : Char} (bytes : Bytes)
    (h : c ∈ acc) : c ∈ decodeLossyOnto q acc bytes := by
  induction bytes generalizing q acc with
  | nil => cases q <;> simp [decodeLossyOnto, h]
  | cons b bytes ih =>
    cases hf : feed q b with
    | done => exact decodeLossyOnto_done hf acc bytes ▸ ih (List.mem_cons_of_mem _ h)
    | more => exact decodeLossyOnto_more hf acc bytes ▸ ih h
    | refuse =>
      obtain ⟨q', acc', -, hsub, he⟩ := decodeLossyOnto_refuse hf acc bytes
      exact he ▸ ih (hsub h)

theorem replacement_mem_of_decodeOnto {q : State} {acc : List Char} {bytes : Bytes}
    (h : decodeOnto q acc bytes = none) : replacement ∈ decodeLossyOnto q acc bytes := by
  induction bytes generalizing q acc with
  | nil =>
    cases q with
    | start => simp [decodeOnto] at h
    | inside => simp [decodeLossyOnto]
  | cons b bytes ih =>
    rw [decodeOnto] at h
    cases hf : feed q b with
    | done => exact decodeLossyOnto_done hf acc bytes ▸ ih (by simpa only [hf] using h)
    | more => exact decodeLossyOnto_more hf acc bytes ▸ ih (by simpa only [hf] using h)
    | refuse =>
      obtain ⟨q', acc', hr, -, he⟩ := decodeLossyOnto_refuse hf acc bytes
      exact he ▸ mem_decodeLossyOnto bytes hr

/-- Bytes that no text is written as are read as a text with U+FFFD in it. -/
theorem replacement_mem_decodeLossy {bytes : Bytes} (h : text? bytes = none) :
    replacement ∈ decodeLossy bytes :=
  replacement_mem_of_decodeOnto (Option.map_eq_none_iff.mp h)

end Duplex.Text.Utf8
