/-
Duplex/Proofs/Net/Addresses.lean

The text of an address is read back.

Readers take what they can and give back the rest, so what is proved of each of
them is that it takes a text that was written, whatever follows, as long as that
does not go on with the last digits:

    read? (chars a ++ rest) = some (a, rest).

For numbers this is `number?_toDigits`, for version 4 addresses
`Ipv4.read?_chars` and for version 6 addresses `Ipv6.read?_chars`.  The last has
three cases.  A mapped address shows its version 4 address.  One with a run of
zero groups has a double colon there, and the groups in front of it, the run and
the groups behind it are all of its groups.  In all others the eight groups
stand one after another, and none of them begins a version 4 address, since no
dot follows its digits.
-/
import Duplex.Net.Ipv6
import Mathlib.Algebra.Group.Nat.Defs
import Mathlib.Data.List.TakeWhile

namespace Duplex.Net

/-! ### Digits -/

section Digits

variable {radix most n : Nat} {c : Char} {rest : List Char}

/-- The radixes that addresses are written in. -/
def IsRadix (radix : Nat) : Prop := radix = 10 ∨ radix = 16

theorem digit?_digitChar (hr : IsRadix radix) {d : Nat} (hd : d < radix) :
    digit? radix d.digitChar = some d := by
  have ten : ∀ d < 10, digit? 10 (Nat.digitChar d) = some d := by decide
  have sixteen : ∀ d < 16, digit? 16 (Nat.digitChar d) = some d := by decide
  rcases hr with rfl | rfl
  · exact ten d hd
  · exact sixteen d hd

theorem IsRadix.one_lt (hr : IsRadix radix) : 1 < radix := by
  rcases hr with rfl | rfl <;> decide

/-- The text does not go on with a digit. -/
def Stops (radix : Nat) (rest : List Char) : Prop := ∀ c ∈ rest.head?, digit? radix c = none

/-- A number is one digit, or it has a digit more than its quotient. -/
theorem digits_induction (hr : IsRadix radix) {motive : Nat → Prop}
    (one : ∀ n, n < radix → motive n) (more : ∀ n, radix ≤ n → motive (n / radix) → motive n)
    (n : Nat) : motive n := by
  induction n using Nat.strongRecOn with
  | ind n ih =>
    have hone := hr.one_lt
    rcases Nat.lt_or_ge n radix with hlt | hle
    · exact one n hlt
    · exact more n hle (ih (n / radix) (Nat.div_lt_self (by omega) hone))

theorem isDigit_of_mem_toDigits (hr : IsRadix radix) (hc : c ∈ Nat.toDigits radix n) :
    (digit? radix c).isSome = true := by
  have hone := hr.one_lt
  induction n using digits_induction hr with
  | one n h =>
    rw [Nat.toDigits_of_lt_base h, List.mem_singleton] at hc
    rw [hc, digit?_digitChar hr h]
    rfl
  | more n h ih =>
    rw [Nat.toDigits_of_base_le hone h] at hc
    rcases List.mem_append.mp hc with hc | hc
    · exact ih hc
    · rw [List.mem_singleton.mp hc, digit?_digitChar hr (Nat.mod_lt n (by omega))]
      rfl

theorem not_mem_toDigits (hr : IsRadix radix) (hc : digit? radix c = none) (n : Nat) :
    c ∉ Nat.toDigits radix n := by
  intro h
  have hdigit := isDigit_of_mem_toDigits hr h
  rw [hc] at hdigit
  cases hdigit

/-- Only zero begins with a zero. -/
theorem eq_zero_of_head?_toDigits (hr : IsRadix radix)
    (h : (Nat.toDigits radix n).head? = some '0') : n = 0 := by
  have hone := hr.one_lt
  induction n using digits_induction hr with
  | one n hlt =>
    rw [Nat.toDigits_of_lt_base hlt] at h
    exact Nat.digitChar_eq_zero.mp (Option.some.inj h)
  | more n hle ih =>
    obtain ⟨c, cs, hcs⟩ := List.exists_cons_of_ne_nil
      (Nat.toDigits_ne_nil (n := n / radix) (b := radix))
    rw [Nat.toDigits_of_base_le hone hle, hcs] at h
    rw [hcs] at ih
    have hpos : 0 < n / radix := Nat.div_pos hle (by omega)
    exact absurd (ih h) (by omega)

theorem value?_append (radix most seen : Nat) (cs ds : List Char) :
    value? radix most seen (cs ++ ds) =
      (value? radix most seen cs).bind fun v => value? radix most v ds := by
  induction cs generalizing seen with
  | nil => rfl
  | cons c cs ih =>
    simp only [List.cons_append, value?]
    split
    · rfl
    · split
      · exact ih _
      · rfl

theorem value?_singleton (seen : Nat) {d : Nat} (hd : digit? radix c = some d)
    (hle : seen * radix + d ≤ most) : value? radix most seen [c] = some (seen * radix + d) := by
  simp only [value?, hd, if_pos hle]

/-- The digits of a number have its value. -/
theorem value?_toDigits (hr : IsRadix radix) (hn : n ≤ most) :
    value? radix most 0 (Nat.toDigits radix n) = some n := by
  have hone := hr.one_lt
  induction n using digits_induction hr with
  | one n h =>
    have hle : 0 * radix + n ≤ most := by omega
    have hvalue := value?_singleton 0 (digit?_digitChar hr h) hle
    rwa [Nat.zero_mul, Nat.zero_add, ← Nat.toDigits_of_lt_base h] at hvalue
  | more n h ih =>
    have hdigit := digit?_digitChar hr (Nat.mod_lt n (by omega))
    have hsum : n / radix * radix + n % radix = n := Nat.div_add_mod' n radix
    rw [Nat.toDigits_of_base_le hone h, value?_append,
      ih (Nat.le_trans (Nat.div_le_self n radix) hn), Option.bind_some,
      value?_singleton _ hdigit (by omega), hsum]

theorem takeWhile_of_stops (h : Stops radix rest) :
    rest.takeWhile (fun c => (digit? radix c).isSome) = [] := by
  cases rest with
  | nil => rfl
  | cons c rest => simp [h c rfl]

/-- **A number is read off the front of a text** that does not go on with a digit. -/
theorem number?_toDigits (form : Digits) (hr : IsRadix form.radix) (hn : n ≤ form.most)
    (hlimit : ∀ l ∈ form.limit, 0 < l ∧ n < form.radix ^ l) (hrest : Stops form.radix rest) :
    number? form (Nat.toDigits form.radix n ++ rest) = some (n, rest) := by
  have htake : (Nat.toDigits form.radix n ++ rest).takeWhile
      (fun c => (digit? form.radix c).isSome) = Nat.toDigits form.radix n := by
    rw [List.takeWhile_append_of_pos fun c hc => isDigit_of_mem_toDigits hr hc,
      takeWhile_of_stops hrest, List.append_nil]
  -- a numeral does not begin with a zero, but for zero itself
  have hfirst : ((Nat.toDigits form.radix n).head? == some '0' &&
      decide (1 < (Nat.toDigits form.radix n).length)) = false := by
    rcases hhead : (Nat.toDigits form.radix n).head? == some '0' with - | -
    · rfl
    · obtain rfl := eq_zero_of_head?_toDigits hr (beq_iff_eq.mp hhead)
      simp
  have hvalue := value?_toDigits hr hn
  obtain ⟨radix, most, limit, zeroFirst⟩ := form
  simp only at hr htake hfirst hvalue hlimit
  cases limit with
  | none => simp [number?, htake, hfirst, hvalue, Bool.and_assoc]
  | some l =>
    obtain ⟨hpos, hlt⟩ := hlimit l rfl
    have hlength := (Nat.length_toDigits_le_iff hr.one_lt hpos).mpr hlt
    simp [number?, htake, hfirst, hvalue, hlength, Bool.and_assoc]

/-- What is read is the whole row of digits in front. -/
theorem rest_of_number? {form : Digits} {cs : List Char} (h : number? form cs = some (n, rest)) :
    rest = cs.dropWhile fun c => (digit? form.radix c).isSome := by
  simp only [number?, Option.ite_none_left_eq_some] at h
  obtain ⟨v, -, hv⟩ := Option.map_eq_some_iff.mp h.2
  rw [← (Prod.mk.inj hv).2]
  exact (congrArg (List.drop _) List.takeWhile_append_dropWhile).symm.trans List.drop_left

end Digits

/-! ### Version 4 addresses -/

namespace Ipv4

variable {rest : List Char}

theorem octet_chars (x : UInt8) (hrest : Stops 10 rest) :
    number? octet (Text.Decimal.chars x.toNat ++ rest) = some (x.toNat, rest) := by
  have hx : x.toNat < 256 := x.toNat_lt
  refine number?_toDigits octet (.inl rfl) (Nat.le_of_lt_succ hx) ?_ hrest
  intro l hl
  obtain rfl : 3 = l := Option.some.inj hl
  exact ⟨by decide, Nat.lt_trans hx (by decide)⟩

/-- **A version 4 address is read back.** -/
theorem read?_chars (ip : Ipv4) (hrest : Stops 10 rest) :
    read? (ip.chars ++ rest) = some (ip, rest) := by
  have hdot (cs : List Char) : Stops 10 ('.' :: cs) := by
    intro c hc
    obtain rfl : '.' = c := Option.some.inj hc
    decide
  simp only [read?, chars, List.append_assoc, List.cons_append, octet_chars _ (hdot _), dotted?,
    octet_chars _ hrest, Option.map_some, UInt8.ofNat_toNat]

/-- A version 4 address is written in digits and dots. -/
theorem not_mem_chars {c : Char} (hc : digit? 10 c = none) (hdot : c ≠ '.') (ip : Ipv4) :
    c ∉ ip.chars := by
  simp [chars, Text.Decimal.chars, not_mem_toDigits (.inl rfl) hc, hdot]

/-- What does not have a dot behind its first digits is no version 4 address. -/
theorem read?_eq_none {cs : List Char}
    (h : (cs.dropWhile fun c => (digit? 10 c).isSome).head? ≠ some '.') : read? cs = none := by
  rcases hnumber : number? octet cs with - | ⟨n, rest⟩
  · simp only [read?, hnumber]
  · have hdotted : dotted? rest = none := by
      have hrest : rest = cs.dropWhile fun c => (digit? 10 c).isSome := rest_of_number? hnumber
      rw [← hrest] at h
      unfold dotted?
      split
      · exact absurd rfl h
      · rfl
    simp only [read?, hnumber, hdotted]

end Ipv4

/-! ### Groups -/

namespace Ipv6

variable {rest cs : List Char} {gs : List UInt16} {room : Nat}

/-- The text goes on with neither a digit of a group nor a dot. -/
def Breaks (rest : List Char) : Prop := ∀ c ∈ rest.head?, digit? 16 c = none ∧ c ≠ '.'

/-- The text does not go on with a group, nor with one behind a colon. -/
structure EndsGroups (rest : List Char) : Prop where
  breaks : Breaks rest
  colon : ∀ cs, rest = ':' :: cs → Breaks cs

theorem breaks_colon (cs : List Char) : Breaks (':' :: cs) := by
  intro c hc
  obtain rfl : ':' = c := Option.some.inj hc
  decide

/-- A decimal digit is a digit of a group. -/
theorem digit?_ten_of_sixteen {c : Char} (h : digit? 16 c = none) : digit? 10 c = none := by
  have bound {n : Nat} (h : (if n < 16 then some n else none) = none) :
      (if n < 10 then some n else none) = none := by
    rw [ite_eq_right_iff] at h ⊢
    intro hn
    exact absurd (h (by omega)) (by simp)
  by_cases hdigit : ('0' ≤ c && c ≤ '9') = true
  · simp only [digit?, if_pos hdigit] at h ⊢
    exact bound h
  by_cases hlower : ('a' ≤ c && c ≤ 'z') = true
  · simp only [digit?, if_neg hdigit, if_pos hlower] at h ⊢
    exact bound h
  by_cases hupper : ('A' ≤ c && c ≤ 'Z') = true
  · simp only [digit?, if_neg hdigit, if_neg hlower, if_pos hupper] at h ⊢
    exact bound h
  · simp only [digit?, if_neg hdigit, if_neg hlower, if_neg hupper, Nat.lt_irrefl, if_false]

theorem Breaks.stops (h : Breaks rest) : Stops 16 rest := fun c hc => (h c hc).1

theorem Breaks.number?_eq_none (h : Breaks rest) : number? group rest = none := by
  have htake : rest.takeWhile (fun c => (digit? group.radix c).isSome) = [] :=
    takeWhile_of_stops h.stops
  simp only [number?, htake, List.isEmpty_nil, Bool.true_or, if_true]

/-- No version 4 address begins with characters that are no dots where no digit and no dot
follows. -/
theorem Breaks.head?_dropWhile (h : Breaks rest) (hcs : '.' ∉ cs) :
    ((cs ++ rest).dropWhile fun c => (digit? 10 c).isSome).head? ≠ some '.' := by
  induction cs with
  | nil =>
    cases rest with
    | nil => simp
    | cons c rest =>
      obtain ⟨hdigit, hdot⟩ := h c rfl
      simp [digit?_ten_of_sixteen hdigit, hdot]
  | cons c cs ih =>
    rw [List.mem_cons, not_or] at hcs
    rw [List.cons_append, List.dropWhile_cons]
    split
    · exact ih hcs.2
    · simpa using Ne.symm hcs.1

theorem Breaks.read?_eq_none (h : Breaks rest) : Ipv4.read? rest = none :=
  Ipv4.read?_eq_none (h.head?_dropWhile List.not_mem_nil)

theorem number?_groupChars (g : UInt16) (h : Breaks rest) :
    number? group (groupChars g ++ rest) = some (g.toNat, rest) := by
  have hg : g.toNat < 65536 := g.toNat_lt
  refine number?_toDigits group (.inr rfl) (Nat.le_of_lt_succ hg) ?_ h.stops
  intro l hl
  obtain rfl : 4 = l := Option.some.inj hl
  exact ⟨by decide, hg⟩

theorem read?_groupChars (g : UInt16) (h : Breaks rest) :
    Ipv4.read? (groupChars g ++ rest) = none := by
  apply Ipv4.read?_eq_none
  exact h.head?_dropWhile (not_mem_toDigits (.inr rfl) (by decide) g.toNat)

/-- Groups, each behind a colon. -/
def joined (gs : List UInt16) : List Char := gs.flatMap fun g => ':' :: groupChars g

theorem groupsChars_cons (g : UInt16) (gs : List UInt16) :
    groupsChars (g :: gs) = groupChars g ++ joined gs := by
  induction gs generalizing g with
  | nil => simp [groupsChars, joined]
  | cons g' gs ih => simp [groupsChars, joined, ih g']

/-- Where groups follow, or nothing that goes on with one, a group is at its end. -/
theorem EndsGroups.breaks_joined (h : EndsGroups rest) (gs : List UInt16) :
    Breaks (joined gs ++ rest) := by
  cases gs with
  | nil => exact h.breaks
  | cons g gs => exact breaks_colon _

theorem readGroups_of_breaks (h : Breaks rest) (room : Nat) :
    readGroups true room rest = ([], false, rest) := by
  cases room with
  | zero => rfl
  | succ room => simp [readGroups, separated?, h.number?_eq_none, h.read?_eq_none]

theorem readGroups_of_ends (h : EndsGroups rest) (room : Nat) :
    readGroups false room rest = ([], false, rest) := by
  have hnone {α : Type} {read? : List Char → Option (α × List Char)}
      (hread : ∀ cs, Breaks cs → read? cs = none) : separated? false read? rest = none := by
    simp only [separated?, Bool.false_eq_true, if_false]
    split
    · exact hread _ (h.colon _ rfl)
    · rfl
  cases room with
  | zero => rfl
  | succ room =>
    simp [readGroups, hnone fun _ h => h.number?_eq_none, hnone fun _ h => h.read?_eq_none]

/-- A group is taken, and then those behind it. -/
theorem readGroups_group (first : Bool) (g : UInt16) (h : Breaks rest) (room : Nat) :
    readGroups first (room + 1) ((if first then [] else [':']) ++ (groupChars g ++ rest)) =
      (g.toNat :: (readGroups false room rest).1, (readGroups false room rest).2) := by
  cases first <;> simp [readGroups, separated?, read?_groupChars g h, number?_groupChars g h]

theorem readGroups_joined (h : EndsGroups rest) (hroom : gs.length ≤ room) :
    readGroups false room (joined gs ++ rest) = (gs.map UInt16.toNat, false, rest) := by
  induction gs generalizing room with
  | nil => exact readGroups_of_ends h room
  | cons g gs ih =>
    obtain ⟨room, rfl⟩ : ∃ n, room = n + 1 := ⟨room - 1, by simp at hroom; omega⟩
    have hgroup := readGroups_group false g (h.breaks_joined gs) room
    rw [ih (by simpa using hroom)] at hgroup
    simpa [joined] using hgroup

/-- **Groups are read back**, where there is room for them. -/
theorem readGroups_groupsChars (gs : List UInt16) (h : EndsGroups rest) (hroom : gs.length ≤ room) :
    readGroups true room (groupsChars gs ++ rest) = (gs.map UInt16.toNat, false, rest) := by
  cases gs with
  | nil => exact readGroups_of_breaks h.breaks room
  | cons g gs =>
    obtain ⟨room, rfl⟩ : ∃ n, room = n + 1 := ⟨room - 1, by simp at hroom; omega⟩
    have hgroup := readGroups_group true g (h.breaks_joined gs) room
    rw [readGroups_joined h (by simpa using hroom)] at hgroup
    simpa [groupsChars_cons] using hgroup

/-! ### Runs of zeros -/

theorem foldl_zerosAt (is : List Nat) {best : Nat × Nat} (h : best.2 ≤ zerosAt gs best.1) :
    (is.foldl (fun best i => if best.2 < zerosAt gs i then (i, zerosAt gs i) else best) best).2 ≤
      zerosAt gs (is.foldl
        (fun best i => if best.2 < zerosAt gs i then (i, zerosAt gs i) else best) best).1 := by
  induction is generalizing best with
  | nil => exact h
  | cons i is ih =>
    rw [List.foldl_cons]
    apply ih
    split
    · exact Nat.le_refl _
    · exact h

/-- The longest run stands where it is said to be. -/
theorem longestZeros_le (gs : List UInt16) :
    (longestZeros gs).2 ≤ zerosAt gs (longestZeros gs).1 :=
  foldl_zerosAt (List.range gs.length) (Nat.zero_le _)

/-- So many groups are zero from there on. -/
theorem take_of_le_zerosAt {i n : Nat} (h : n ≤ zerosAt gs i) :
    (gs.drop i).take n = List.replicate n 0 := by
  have htake : (gs.drop i).take n = ((gs.drop i).takeWhile (· == 0)).take n :=
    (congrArg (List.take n) List.takeWhile_append_dropWhile).symm.trans
      (List.take_append_of_le_length h)
  rw [htake, List.eq_replicate_iff]
  refine ⟨List.length_take_of_le h, fun g hg => ?_⟩
  have hzero := List.mem_takeWhile_imp (p := (· == 0)) (List.mem_of_mem_take hg)
  exact beq_iff_eq.mp hzero

/-- The groups in front of the run, the run, and the groups behind it are all groups. -/
theorem append_zeros_append {start length : Nat} (h : longestZeros gs = (start, length)) :
    gs.take start ++ List.replicate length 0 ++ gs.drop (start + length) = gs := by
  have hle := longestZeros_le gs
  rw [h] at hle
  rw [← take_of_le_zerosAt hle, List.append_assoc, ← List.drop_drop, List.take_append_drop,
    List.take_append_drop]

/-! ### Addresses -/

theorem toNat_ofGroups (ip : Ipv6) : ofGroups (ip.groups.toList.map UInt16.toNat) = ip := by
  obtain ⟨groups⟩ := ip
  rw [ofGroups, mk.injEq]
  ext i hi
  simp

/-- A mapped address is its version 4 address behind a group of ones. -/
theorem mapped?_eq_some {v4 : Ipv4} (h : mapped? gs = some v4) :
    gs.map UInt16.toNat = [0, 0, 0, 0, 0, 65535] ++ ofIpv4 v4 := by
  unfold mapped? at h
  split at h
  · rename_i x y
    rw [← Option.some.inj h]
    have hx : x.toNat < 65536 := x.toNat_lt
    have hy : y.toNat < 65536 := y.toNat_lt
    simp [ofIpv4]
    omega
  · cases h

theorem endsGroups_run (cs : List Char) : EndsGroups (':' :: ':' :: cs) := by
  refine ⟨breaks_colon _, ?_⟩
  intro cs' hcs
  rw [← (List.cons.inj hcs).2]
  exact breaks_colon cs

/-- Groups on both sides of a double colon are read back, with zeros between them. -/
theorem read?_run {front back : List UInt16} {length : Nat} (h : EndsGroups rest)
    (hfront : front.length + length + back.length = 8) (hlength : 0 < length) :
    read? (groupsChars front ++ (':' :: ':' :: (groupsChars back ++ rest))) =
      some (ofGroups ((front ++ List.replicate length 0 ++ back).map UInt16.toNat), rest) := by
  have hread := readGroups_groupsChars front (endsGroups_run (groupsChars back ++ rest))
    (show front.length ≤ 8 by omega)
  have hread' := readGroups_groupsChars back h
    (show back.length ≤ 7 - front.length by omega)
  have hnot : front.length ≠ 8 := by omega
  have hzeros : 8 - front.length - back.length = length := by omega
  simp [read?, hread, hread', hnot, hzeros]

/-- A version 4 address behind a double colon and a group of ones is read back. -/
theorem read?_mapped (v4 : Ipv4) (h : EndsGroups rest) :
    read? ("::ffff:".toList ++ (v4.chars ++ rest)) =
      some (ofGroups ([0, 0, 0, 0, 0, 65535] ++ ofIpv4 v4), rest) := by
  have htext : "::ffff:".toList ++ (v4.chars ++ rest) =
      ':' :: ':' :: (groupChars 0xffff ++ ':' :: (v4.chars ++ rest)) := rfl
  have hstops : Stops 10 rest := fun c hc => digit?_ten_of_sixteen (h.breaks c hc).1
  have hlast : readGroups false 6 (':' :: (v4.chars ++ rest)) = (ofIpv4 v4, true, rest) := by
    simp [readGroups, separated?, Ipv4.read?_chars v4 hstops]
  have hones := readGroups_group true 0xffff (breaks_colon (v4.chars ++ rest)) 6
  rw [hlast, if_pos rfl, List.nil_append] at hones
  rw [htext, read?, readGroups_of_breaks (breaks_colon _)]
  simp [hones, ofIpv4]

/-- **A version 6 address is read back.** -/
theorem read?_chars (ip : Ipv6) (h : EndsGroups rest) :
    read? (ip.chars ++ rest) = some (ip, rest) := by
  have height : ip.groups.toList.length = 8 := by simp
  have hback := toNat_ofGroups ip
  simp only [chars]
  generalize ip.groups.toList = gs at height hback ⊢
  rcases hmapped : mapped? gs with - | v4
  · rcases hlongest : longestZeros gs with ⟨start, length⟩
    simp only
    split
    · -- a double colon stands for the run
      rename_i hlength
      have hsplit := append_zeros_append hlongest
      have hlen := congrArg List.length hsplit
      rw [List.length_append, List.length_append, List.length_replicate, height] at hlen
      have hread := read?_run h hlen (by omega)
      rw [hsplit, hback] at hread
      simpa using hread
    · -- all groups are written
      have hread := readGroups_groupsChars _ h (Nat.le_of_eq height)
      simp [read?, hread, height, hback]
  · -- the version 4 address is written
    simp only [List.append_assoc]
    rw [read?_mapped v4 h, ← mapped?_eq_some hmapped, hback]

/-- A version 6 address is written in digits, colons and dots. -/
theorem not_mem_chars {c : Char} (hc : digit? 16 c = none) (hcolon : c ≠ ':') (hdot : c ≠ '.')
    (ip : Ipv6) : c ∉ ip.chars := by
  have hones : c ∉ "::ffff:".toList := by
    have hf : c ≠ 'f' := by
      rintro rfl
      cases hc
    simp [hcolon, hf]
  have hgroup (g : UInt16) : c ∉ groupChars g := not_mem_toDigits (.inr rfl) hc g.toNat
  have hgroups (gs : List UInt16) : c ∉ groupsChars gs := by
    cases gs with
    | nil => simp [groupsChars]
    | cons g gs => simp [groupsChars_cons, joined, hgroup, hcolon]
  simp only [chars]
  split
  · simp only [List.mem_append, not_or]
    exact ⟨hones, Ipv4.not_mem_chars (digit?_ten_of_sixteen hc) hdot _⟩
  · split
    · simp [hgroups, hcolon]
    · exact hgroups _

/-- There is always a colon. -/
theorem colon_mem_chars (ip : Ipv6) : ':' ∈ ip.chars := by
  have height : ip.groups.toList.length = 8 := by simp
  simp only [chars]
  generalize ip.groups.toList = gs at height ⊢
  split
  · simp
  · split
    · simp
    · rcases gs with - | ⟨g, - | ⟨g', gs⟩⟩
      · simp at height
      · simp at height
      · simp [groupsChars_cons, joined]

end Ipv6

/-! ### What is left

What a reader gives back is the end of what it was given. -/

section Suffix

variable {cs rest : List Char}

theorem suffix_of_number? {form : Digits} {n : Nat} (h : number? form cs = some (n, rest)) :
    rest <:+ cs := by
  rw [rest_of_number? h]
  exact List.dropWhile_suffix _

namespace Ipv4

theorem suffix_of_dotted? {n : Nat} (h : dotted? cs = some (n, rest)) : rest <:+ cs := by
  unfold dotted? at h
  split at h
  · exact (suffix_of_number? h).trans (List.suffix_cons _ _)
  · cases h

theorem suffix_of_read? {ip : Ipv4} (h : read? cs = some (ip, rest)) : rest <:+ cs := by
  rcases ha : number? octet cs with - | ⟨a, cs₁⟩
  · simp [read?, ha] at h
  rcases hb : dotted? cs₁ with - | ⟨b, cs₂⟩
  · simp [read?, ha, hb] at h
  rcases hc : dotted? cs₂ with - | ⟨c, cs₃⟩
  · simp [read?, ha, hb, hc] at h
  rcases hd : dotted? cs₃ with - | ⟨d, cs₄⟩
  · simp [read?, ha, hb, hc, hd] at h
  simp only [read?, ha, hb, hc, hd, Option.map_some, Option.some.injEq, Prod.mk.injEq] at h
  rw [← h.2]
  exact (suffix_of_dotted? hd).trans ((suffix_of_dotted? hc).trans
    ((suffix_of_dotted? hb).trans (suffix_of_number? ha)))

end Ipv4

namespace Ipv6

theorem suffix_of_separated? {α : Type} {read? : List Char → Option (α × List Char)}
    (hread : ∀ {cs rest a}, read? cs = some (a, rest) → rest <:+ cs) {first : Bool} {a : α}
    (h : separated? first read? cs = some (a, rest)) : rest <:+ cs := by
  simp only [separated?] at h
  split at h
  · exact hread h
  · split at h
    · exact (hread h).trans (List.suffix_cons _ _)
    · cases h

theorem suffix_readGroups (first : Bool) (room : Nat) (cs : List Char) :
    (readGroups first room cs).2.2 <:+ cs := by
  induction room generalizing first cs with
  | zero => exact List.suffix_rfl
  | succ room ih =>
    simp only [readGroups]
    split
    · rename_i h
      split at h
      · cases h
      · exact suffix_of_separated? Ipv4.suffix_of_read? h
    · split
      · rename_i h
        exact (ih false _).trans (suffix_of_separated? suffix_of_number? h)
      · exact List.suffix_rfl

theorem suffix_of_read? {ip : Ipv6} (h : read? cs = some (ip, rest)) : rest <:+ cs := by
  have hfront := suffix_readGroups true 8 cs
  simp only [read?] at h
  split at h
  · rw [← (Prod.mk.inj (Option.some.inj h)).2]
    exact hfront
  · split at h
    · cases h
    · split at h
      · rename_i rest' hrest
        rw [hrest] at hfront
        rw [← (Prod.mk.inj (Option.some.inj h)).2]
        exact (suffix_readGroups true _ rest').trans
          (((List.suffix_cons _ _).trans (List.suffix_cons _ _)).trans hfront)
      · cases h

end Ipv6

end Suffix

end Duplex.Net
