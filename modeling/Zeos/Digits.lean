import Zeos.Bytes
import Mathlib.Data.Nat.Digits.Lemmas

/-! `itoa` and `strlen` of `libc.c`. The first loop of `itoa` leaves the digits in
reverse, the second one swaps them in place. -/
namespace Zeos

open Bytes (Memory bytesAt bytesAt_succ bytesAt_congr)

/-- `while (a > 0) { b[i] = (a % 10) + '0'; a = a / 10; i++; }`, with `i` behind it. -/
def itoaDigits (b : Nat) (a : Int) (i : Nat) (m : Memory) : Nat × Memory :=
  if 0 < a then itoaDigits b (a / 10) (i + 1) (Function.update m (b + i) (.ofInt (a % 10 + 48))) else (i, m)
  termination_by a.toNat
  decreasing_by omega

/-- `for (i1 = 0; i1 < i / 2; i1++)`, from `i1` on. -/
def itoaSwap (b i i1 : Nat) (m : Memory) : Memory :=
  if i1 < i / 2 then
    let c := m (b + i1)
    let m := Function.update m (b + i1) (m (b + (i - i1 - 1)))
    let m := Function.update m (b + (i - i1 - 1)) c
    itoaSwap b i (i1 + 1) m
  else m
  termination_by i / 2 - i1

/-- `itoa(a, b)`. -/
def itoa (a : Int) (b : Nat) (m : Memory) : Memory :=
  if a = 0 then
    let m := Function.update m b 48
    Function.update m (b + 1) 0
  else
    let (i, m) := itoaDigits b a 0 m
    let m := itoaSwap b i 0 m
    Function.update m (b + i) 0

/-- The loop of `strlen`, from `i` on; a memory without a NUL keeps it going. -/
def strlenLoop (a : Nat) (m : Memory) : Nat → Nat → Option Nat
  | 0, _ => none
  | fuel + 1, i => if m (a + i) ≠ 0 then strlenLoop a m fuel (i + 1) else some i

/-- `strlen(a)`. -/
def strlen (fuel a : Nat) (m : Memory) : Option Nat := strlenLoop a m fuel 0

/-- The string that starts at `b` is `text`. -/
structure Holds (m : Memory) (b : Nat) (text : List UInt8) : Prop where
  bytes : bytesAt m b text.length = text
  terminator : m (b + text.length) = 0
  inner : 0 ∉ text

/-- The number that a string of decimal digits denotes. -/
def value (text : List UInt8) : Nat := text.foldl (fun v c => 10 * v + (c.toNat - 48)) 0

/-- Decimal digits that denote `n`, without leading zeros. -/
structure Decimal (n : Nat) (text : List UInt8) : Prop where
  nonempty : text ≠ []
  digits : ∀ c ∈ text, 48 ≤ c.toNat ∧ c.toNat ≤ 57
  leading : text.head? = some 48 → text = [48]
  denotes : value text = n

/-- The character of a digit. -/
def digitChar (d : Nat) : UInt8 := .ofNat (d + 48)

variable {m : Memory} {b : Nat} {text text' : List UInt8}

theorem digitChar_toNat {d : Nat} (small : d < 10) : (digitChar d).toNat = d + 48 := by
  unfold digitChar
  rw [UInt8.toNat_ofNat']
  omega

theorem digitChar_eq (a : Nat) : UInt8.ofInt ((a : Int) % 10 + 48) = digitChar (a % 10) := by
  unfold UInt8.ofInt digitChar
  congr 1
  omega

/-- The loop of the digits, the lowest one first. -/
theorem itoaDigits_eq (b n : Nat) : ∀ i m, ∃ m', itoaDigits b n i m = (i + (Nat.digits 10 n).length, m') ∧
    bytesAt m' (b + i) (Nat.digits 10 n).length = (Nat.digits 10 n).map digitChar ∧
    ∀ x, x < b + i ∨ b + i + (Nat.digits 10 n).length ≤ x → m' x = m x := by
  induction n using Nat.strong_induction_on with
  | _ n ih =>
    intro i m
    rcases Nat.eq_zero_or_pos n with rfl | positive
    · refine ⟨m, ?_, by simp [bytesAt], fun _ _ => rfl⟩
      rw [itoaDigits, if_neg (by decide)]
      simp
    · have quotient : (n : Int) / 10 = ((n / 10 : Nat) : Int) := by omega
      obtain ⟨m', loop, bytes, frame⟩ := ih (n / 10) (by omega) (i + 1) (Function.update m (b + i) (digitChar (n % 10)))
      rw [Nat.digits_def' (by decide) positive]
      refine ⟨m', ?_, ?_, fun x out => ?_⟩
      · rw [itoaDigits, if_pos (by omega), digitChar_eq, quotient, loop, List.length_cons]
        simp only [Nat.add_assoc, Nat.add_comm 1]
      · rw [List.length_cons, bytesAt_succ, List.map_cons, Nat.add_assoc, bytes, frame _ (by omega), Function.update_self]
      · rw [List.length_cons] at out
        rw [frame x (by omega), Function.update_of_ne (by omega)]

/-- What is still to be swapped ends up mirrored, the rest stays. -/
theorem itoaSwap_eq (b n k : Nat) : ∀ j m, j + k = n / 2 → ∀ x,
    itoaSwap b n j m x = if b + j ≤ x ∧ x < b + n - j then m (b + (b + n - 1 - x)) else m x := by
  induction k with
  | zero =>
    intro j m half x
    rw [itoaSwap, if_neg (by omega)]
    split
    · -- an odd number of digits leaves the one in the middle
      have middle : b + (b + n - 1 - x) = x := by omega
      rw [middle]
    · rfl
  | succ k ih =>
    intro j m half x
    rw [itoaSwap, if_pos (by omega)]
    show itoaSwap b n (j + 1) _ x = _
    rw [ih (j + 1) _ (by omega)]
    by_cases inner : b + (j + 1) ≤ x ∧ x < b + n - (j + 1)
    · rw [if_pos inner, if_pos (by omega), Function.update_of_ne (by omega), Function.update_of_ne (by omega)]
    · rw [if_neg inner]
      by_cases low : x = b + j
      · have mirror : b + (b + n - 1 - x) = b + (n - j - 1) := by omega
        rw [if_pos (by omega), Function.update_of_ne (by omega), low, Function.update_self, ← low, mirror]
      · by_cases high : x = b + (n - j - 1)
        · have mirror : b + (b + n - 1 - x) = b + j := by omega
          rw [if_pos (by omega), high, Function.update_self, ← high, mirror]
        · rw [if_neg (by omega), Function.update_of_ne high, Function.update_of_ne low]

/-- The swaps reverse the characters. -/
theorem itoaSwap_reverse (b n : Nat) (m : Memory) : bytesAt (itoaSwap b n 0 m) b n = (bytesAt m b n).reverse := by
  apply List.ext_getElem
  · simp
  · intro p inside _
    rw [Bytes.bytesAt_length] at inside
    have mirror : b + (b + n - 1 - (b + p)) = b + (n - 1 - p) := by omega
    simp only [bytesAt, List.getElem_map, List.getElem_range, List.getElem_reverse, List.length_map, List.length_range]
    rw [itoaSwap_eq b n (n / 2) 0 m (by omega), if_pos (by omega), mirror]

theorem value_append (text : List UInt8) (c : UInt8) : value (text ++ [c]) = 10 * value text + (c.toNat - 48) := by
  simp [value]

theorem value_digits (ds : List Nat) (small : ∀ d ∈ ds, d < 10) : value (ds.map digitChar).reverse = Nat.ofDigits 10 ds := by
  induction ds with
  | nil => rfl
  | cons d ds ih =>
    obtain ⟨first, rest⟩ := List.forall_mem_cons.mp small
    rw [List.map_cons, List.reverse_cons, value_append, ih rest, digitChar_toNat first, Nat.ofDigits_cons]
    omega

/-- The digits of a positive number, read from the highest one down. -/
theorem decimal_digits {n : Nat} (positive : n ≠ 0) : Decimal n ((Nat.digits 10 n).map digitChar).reverse where
  nonempty := by simpa [Nat.digits_eq_nil_iff_eq_zero] using positive
  digits c mem := by
    obtain ⟨d, digit, rfl⟩ := List.mem_map.mp (List.mem_reverse.mp mem)
    have small := Nat.digits_lt_base (by decide) digit
    rw [digitChar_toNat small]
    omega
  leading zero := by
    have last := Nat.getLast_digit_ne_zero 10 positive
    have full : Nat.digits 10 n ≠ [] := Nat.digits_ne_nil_iff_ne_zero.mpr positive
    have small := Nat.digits_lt_base (by decide) (List.getLast_mem full)
    rw [List.head?_reverse, List.getLast?_map, List.getLast?_eq_some_getLast full, Option.map_some,
      Option.some.injEq] at zero
    have digit := congrArg UInt8.toNat zero
    rw [digitChar_toNat small] at digit
    have char : (48 : UInt8).toNat = 48 := rfl
    omega
  denotes := by
    rw [value_digits _ fun d digit => Nat.digits_lt_base (by decide) digit, Nat.ofDigits_digits]

theorem decimal_zero : Decimal 0 [48] where
  nonempty := List.cons_ne_nil 48 []
  digits c mem := by
    obtain rfl := List.mem_singleton.mp mem
    have char : (48 : UInt8).toNat = 48 := rfl
    omega
  leading _ := rfl
  denotes := rfl

/-- Digits are no NULs. -/
theorem Decimal.holds {n : Nat} (decimal : Decimal n text) (bytes : bytesAt m b text.length = text)
    (terminator : m (b + text.length) = 0) : Holds m b text := by
  refine ⟨bytes, terminator, fun nul => ?_⟩
  have digit := decimal.digits 0 nul
  simp at digit

/-- `itoa` writes the decimal string and its terminator, and nothing else. -/
theorem itoa_holds (n b : Nat) (m : Memory) : ∃ text, Holds (itoa n b m) b text ∧ Decimal n text ∧
    ∀ x, x ∉ Set.Icc b (b + text.length) → itoa n b m x = m x := by
  by_cases zero : n = 0
  · subst zero
    have written : itoa (0 : Nat) b m = Function.update (Function.update m b 48) (b + 1) 0 := rfl
    refine ⟨[48], decimal_zero.holds ?_ ?_, decimal_zero, fun x out => ?_⟩
    · rw [written]
      simp [bytesAt]
    · rw [written]
      simp
    · rw [written]
      rw [Set.mem_Icc, List.length_singleton] at out
      rw [Function.update_of_ne (by omega), Function.update_of_ne (by omega)]
  · obtain ⟨m₁, loop, bytes, frame⟩ := itoaDigits_eq b n 0 m
    rw [Nat.add_zero] at bytes frame
    rw [Nat.zero_add] at loop
    have decimal := decimal_digits zero
    have written : itoa n b m = Function.update (itoaSwap b (Nat.digits 10 n).length 0 m₁) (b + (Nat.digits 10 n).length) 0 := by
      unfold itoa
      rw [if_neg (by omega), loop]
    have length : ((Nat.digits 10 n).map digitChar).reverse.length = (Nat.digits 10 n).length := by simp
    refine ⟨_, decimal.holds ?_ ?_, decimal, fun x out => ?_⟩
    · rw [written, length, ← bytes, ← itoaSwap_reverse]
      apply bytesAt_congr
      intro i inside
      rw [Function.update_of_ne (by omega)]
    · rw [written, length, Function.update_self]
    · rw [length, Set.mem_Icc] at out
      rw [written, Function.update_of_ne (by omega), itoaSwap_eq b _ _ 0 m₁ (Nat.zero_add _) x, if_neg (by omega),
        frame x (by omega)]

/-- The loop runs over the string and stops at its terminator. -/
theorem strlenLoop_eq (b : Nat) (m : Memory) (n : Nat) : ∀ i fuel, (∀ j < n, m (b + (i + j)) ≠ 0) → m (b + (i + n)) = 0 →
    n < fuel → strlenLoop b m fuel i = some (i + n) := by
  induction n with
  | zero =>
    intro i fuel _ terminator long
    obtain ⟨fuel, rfl⟩ := Nat.exists_eq_succ_of_ne_zero (by omega : fuel ≠ 0)
    rw [Nat.add_zero] at terminator ⊢
    rw [strlenLoop, if_neg (not_not_intro terminator)]
  | succ n ih =>
    intro i fuel inner terminator long
    obtain ⟨fuel, rfl⟩ := Nat.exists_eq_succ_of_ne_zero (by omega : fuel ≠ 0)
    have next (j : Nat) : i + 1 + j = i + (j + 1) := by omega
    have here : m (b + i) ≠ 0 := inner 0 (by omega)
    rw [strlenLoop, if_pos here, ih (i + 1) fuel (fun j small => ?_) (by rwa [next]) (by omega), next]
    rw [next]
    exact inner (j + 1) (by omega)

theorem Holds.strlen (holds : Holds m b text) {fuel : Nat} (long : text.length < fuel) :
    strlen fuel b m = some text.length := by
  have inner (j : Nat) (inside : j < text.length) : m (b + (0 + j)) ≠ 0 := by
    intro nul
    have member : m (b + j) ∈ bytesAt m b text.length := List.mem_map.mpr ⟨j, List.mem_range.mpr inside, rfl⟩
    rw [holds.bytes, ← Nat.zero_add j, nul] at member
    exact holds.inner member
  have loop := strlenLoop_eq b m text.length 0 fuel inner (by rw [Nat.zero_add]; exact holds.terminator) long
  rwa [Nat.zero_add] at loop

/-- A memory holds one string at an address. -/
theorem Holds.unique (holds : Holds m b text) (holds' : Holds m b text') : text = text' := by
  have length : text.length = text'.length := by
    have long : text.length < text.length + text'.length + 1 := by omega
    have first := holds.strlen long
    rw [holds'.strlen (by omega)] at first
    exact (Option.some.inj first).symm
  rw [← holds.bytes, ← holds'.bytes, length]

/-- `itoa(a, b)` leaves the decimal string of `a` at `b`, `strlen` finds its length, no byte
beside the string and its terminator changes, and the string of another number is another one. -/
theorem itoa_decimal (a : Int) (b : Nat) (m : Memory) (nonneg : 0 ≤ a) :
    ∃ text, Holds (itoa a b m) b text ∧ Decimal a.toNat text ∧
      (∀ fuel, text.length < fuel → strlen fuel b (itoa a b m) = some text.length) ∧
      (∀ x, x ∉ Set.Icc b (b + text.length) → itoa a b m x = m x) ∧
      ∀ a' b' m' text', 0 ≤ a' → a' ≠ a → Holds (itoa a' b' m') b' text' → text' ≠ text := by
  obtain ⟨n, rfl⟩ := Int.eq_ofNat_of_zero_le nonneg
  obtain ⟨text, holds, decimal, frame⟩ := itoa_holds n b m
  refine ⟨text, holds, decimal, fun fuel long => holds.strlen long, frame, ?_⟩
  intro a' b' m' text' nonneg' other holds' same
  obtain ⟨n', rfl⟩ := Int.eq_ofNat_of_zero_le nonneg'
  obtain ⟨_, holds'', decimal', -⟩ := itoa_holds n' b' m'
  have number : n' = n := by
    rw [← decimal'.denotes, ← decimal.denotes, ← same, holds''.unique holds']
  exact other (congrArg _ number)

/-- The string of 1024. -/
theorem itoa_decimal_1024 : ∃ text, Holds (itoa 1024 7 fun _ => 65) 7 text ∧ Decimal 1024 text := by
  obtain ⟨text, holds, decimal, -⟩ := itoa_decimal 1024 7 (fun _ => 65) (by decide)
  exact ⟨text, holds, decimal⟩

end Zeos
