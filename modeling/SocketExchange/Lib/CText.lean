/-
# Bytes and the C library's text functions

What a program in C does with text: C strings that end at the first NUL, `snprintf` into a
buffer of fixed size, `%s` and `%d` of `sscanf`, `strtol`.  The conversions follow FreeBSD's
libc: `%d` takes the longest optionally signed digit prefix, converts it to `intmax_t`, which
saturates, and stores the low 32 bits.

The specification side is `words`, the maximal runs of non-space bytes, and `intToken`, the
integer a word denotes; `scanWord_of_words`, `numeral_of_words` and `words_of_numeral` tie the
two together.
-/
import Mathlib.Data.Nat.Digits.Lemmas
import Mathlib.Data.List.TakeWhile
import Mathlib.Tactic.IntervalCases

namespace CText

abbrev Byte := UInt8

abbrev Bytes := List Byte

/-- The bytes of a string literal, without its NUL. -/
def lit (s : String) : Bytes := s.toList.map fun c => c.toNat.toUInt8

/-- The C string that starts at a place in memory: up to the first NUL. -/
def cstr (mem : Bytes) : Bytes := mem.takeWhile fun b => b != 0

/-- `isspace` in the C locale: blank, `\t`, `\n`, `\v`, `\f`, `\r`. -/
def isSpace (b : Byte) : Bool := b == 32 || (9 ≤ b && b ≤ 13)

def isDigit (b : Byte) : Bool := 48 ≤ b && b ≤ 57

theorem not_isSpace_of_isDigit {b : Byte} (h : isDigit b = true) : isSpace b = false := by
  simp only [isDigit, Bool.and_eq_true, decide_eq_true_eq, UInt8.le_iff_toNat_le] at h
  simp only [isSpace, Bool.or_eq_false_iff, beq_eq_false_iff_ne, Bool.and_eq_false_iff,
    decide_eq_false_iff_not, UInt8.le_iff_toNat_le, ne_eq, ← UInt8.toNat_inj]
  simp only [UInt8.reduceToNat] at h ⊢
  omega

/-! ## 1. Formatting -/

/-- `%u` -/
def decimal (n : Nat) : Bytes :=
  if n = 0 then [48] else (Nat.digits 10 n).reverse.map fun d => (48 + d).toUInt8

/-- `%d` -/
def decimalInt (n : Int) : Bytes :=
  if n < 0 then 45 :: decimal (-n).toNat else decimal n.toNat

/-- `snprintf(buf, size, …)`: what fits in `size` bytes with the NUL. -/
def snprintf (size : Nat) (text : Bytes) : Bytes := text.take (size - 1)

theorem snprintf_of_lt {size : Nat} {text : Bytes} (h : text.length < size) :
    snprintf size text = text := List.take_of_length_le (by omega)

theorem length_decimal_le {n k : Nat} (hk : 1 ≤ k) (h : n < 10 ^ k) : (decimal n).length ≤ k := by
  unfold decimal
  split
  · exact hk
  · rw [List.length_map, List.length_reverse]
    exact (Nat.digits_length_le_iff (by omega) n).mpr h

theorem length_decimalInt_le {n : Int} (hlo : -2 ^ 31 ≤ n) (hhi : n < 2 ^ 31) :
    (decimalInt n).length ≤ 11 := by
  unfold decimalInt
  split
  · have h := length_decimal_le (n := (-n).toNat) (k := 10) (by omega) (by omega)
    simp only [List.length_cons]
    omega
  · have h := length_decimal_le (n := n.toNat) (k := 10) (by omega) (by omega)
    omega

/-- A text without NULs is read back whole. -/
theorem cstr_of_not_mem {text : Bytes} (h : 0 ∉ text) : cstr text = text :=
  List.takeWhile_eq_self_iff.mpr fun _ hb => bne_iff_ne.mpr (ne_of_mem_of_not_mem hb h)

theorem cstr_append {a : Bytes} (h : 0 ∉ a) (r : Bytes) : cstr (a ++ r) = a ++ cstr r :=
  List.takeWhile_append_of_pos fun _ hb => bne_iff_ne.mpr (ne_of_mem_of_not_mem hb h)

theorem zero_not_mem_cstr (mem : Bytes) : 0 ∉ cstr mem := fun h =>
  absurd (List.mem_takeWhile_imp h) (by decide)

theorem zero_not_mem_decimal (n : Nat) : 0 ∉ decimal n := by
  intro h
  unfold decimal at h
  split at h
  · exact absurd h (by decide)
  · obtain ⟨d, hd, h0⟩ := List.mem_map.mp h
    have hlt : d < 10 := Nat.digits_lt_base (by omega) (List.mem_reverse.mp hd)
    revert h0
    interval_cases d <;> decide

theorem zero_not_mem_decimalInt (n : Int) : 0 ∉ decimalInt n := by
  unfold decimalInt
  split
  · rw [List.mem_cons, not_or]
    exact ⟨by decide, zero_not_mem_decimal _⟩
  · exact zero_not_mem_decimal _

/-! ## 2. Scanning -/

def skipSpace (s : Bytes) : Bytes := s.dropWhile isSpace

/-- `%<width>s`: the word and what follows it; `none` at the end of the input. -/
def scanWord (width : Nat) (s : Bytes) : Option (Bytes × Bytes) :=
  let t := skipSpace s
  let word := (t.takeWhile fun b => !isSpace b).take width
  if word = [] then none else some (word, t.drop word.length)

/-- An optional sign. -/
def scanSign : Bytes → Bool × Bytes
  | [] => (false, [])
  | b :: s => if b = 45 then (true, s) else if b = 43 then (false, s) else (false, b :: s)

/-- The value of a string of digits. -/
def digitsVal (ds : Bytes) : Nat := ds.foldl (fun v d => v * 10 + (d.toNat - 48)) 0

/-- The longest optionally signed digit prefix: its value, and what follows it. -/
def signedPrefix (s : Bytes) : Option (Int × Bytes) :=
  let t := (scanSign s).2
  let ds := t.takeWhile isDigit
  if ds = [] then none
  else some (if (scanSign s).1 then -(digitsVal ds : Int) else digitsVal ds, t.drop ds.length)

/-- The same after white space. -/
def numeral (s : Bytes) : Option (Int × Bytes) := signedPrefix (skipSpace s)

/-- `strtoimax` and `strtol` saturate at 64 bits. -/
def saturate64 (n : Int) : Int := max (-2 ^ 63) (min n (2 ^ 63 - 1))

/-- The low 32 bits as an `int`. -/
def narrow32 (n : Int) : Int := Int.bmod n (2 ^ 32)

/-- `%d` -/
def scanInt (s : Bytes) : Option (Int × Bytes) :=
  (numeral s).map fun r => (narrow32 (saturate64 r.1), r.2)

theorem narrow32_range (n : Int) : -2 ^ 31 ≤ narrow32 n ∧ narrow32 n < 2 ^ 31 := by
  unfold narrow32
  have h1 := Int.le_bmod (x := n) (m := 2 ^ 32) (by omega)
  have h2 := Int.bmod_lt (x := n) (m := 2 ^ 32) (by omega)
  omega

/-- A value of 32 bits comes through unchanged. -/
theorem narrow32_of_range {n : Int} (hlo : -2 ^ 31 ≤ n) (hhi : n < 2 ^ 31) :
    narrow32 (saturate64 n) = n := by
  have hs : saturate64 n = n := by
    unfold saturate64
    omega
  rw [hs, narrow32, Int.bmod_eq_of_le] <;> omega

/-! ## 3. Words -/

/-- The maximal runs of non-space bytes. -/
def words (s : Bytes) : List Bytes := (s.splitOnP isSpace).filter fun w => w != []

/-- Nothing, or white space first: where a word can end. -/
def Blank (s : Bytes) : Prop := ∀ b ∈ s.head?, isSpace b = true

instance (s : Bytes) : Decidable (Blank s) :=
  decidable_of_iff (s.head?.all isSpace = true) (by cases s <;> simp [Blank])

theorem words_nil : words [] = [] := by
  simp [words]

theorem words_space {b : Byte} (hb : isSpace b = true) (s : Bytes) : words (b :: s) = words s := by
  unfold words
  rw [List.splitOnP_cons_eq_if_modifyHead, if_pos hb]
  simp

/-- White space at the end is in no word. -/
theorem words_concat_space {b : Byte} (hb : isSpace b = true) (s : Bytes) :
    words (s ++ [b]) = words s := by
  unfold words
  rw [List.splitOnP_append_cons _ _ hb, List.filter_append]
  simp

theorem words_skipSpace : ∀ s : Bytes, words (skipSpace s) = words s
  | [] => rfl
  | b :: s => by
    unfold skipSpace
    rw [List.dropWhile_cons]
    split
    · rename_i hb
      rw [words_space hb]
      exact words_skipSpace s
    · rfl

/-- A run of non-space bytes that ends where a word can end is the first word. -/
theorem words_append {w r : Bytes} (hw : ∀ b ∈ w, isSpace b = false) (hne : w ≠ [])
    (hr : Blank r) : words (w ++ r) = w :: words r := by
  cases r with
  | nil =>
    rw [List.append_nil, words_nil, words, List.splitOnP_eq_singleton hw]
    simp [hne]
  | cons b r =>
    have hb : isSpace b = true := hr b rfl
    rw [words_space hb, words, List.splitOnP_append_cons_of_forall_mem hw b hb]
    simp [words, hne]

theorem blank_dropWhile (s : Bytes) : Blank (s.dropWhile fun b => !isSpace b) := by
  intro b hb
  have h := List.head?_dropWhile_not (fun b => !isSpace b) s
  rw [Option.mem_def.mp hb] at h
  simpa using h

/-- `%s` with a width no word exceeds takes the first word. -/
theorem words_of_scanWord {width : Nat} {s w r : Bytes} (hlen : s.length ≤ width)
    (h : scanWord width s = some (w, r)) : words s = w :: words r ∧ Blank r := by
  unfold scanWord at h
  dsimp only at h
  split at h
  · cases h
  · rename_i hne
    have htake : ((skipSpace s).takeWhile fun b => !isSpace b).take width
        = (skipSpace s).takeWhile fun b => !isSpace b := by
      refine List.take_of_length_le ?_
      have h1 := (List.takeWhile_prefix (p := fun b => !isSpace b) (l := skipSpace s)).length_le
      have h2 := (List.dropWhile_suffix (p := isSpace) (l := s)).length_le
      unfold skipSpace at h1 ⊢
      omega
    rw [htake] at h hne
    cases h
    have hdrop : (skipSpace s).drop ((skipSpace s).takeWhile fun b => !isSpace b).length
        = (skipSpace s).dropWhile fun b => !isSpace b := by
      conv_lhs =>
        arg 2
        rw [← List.takeWhile_append_dropWhile (p := fun b => !isSpace b) (l := skipSpace s)]
      exact List.drop_left
    rw [hdrop]
    refine ⟨?_, blank_dropWhile _⟩
    rw [← words_skipSpace s,
      ← words_append (fun b hb => by simpa using List.mem_takeWhile_imp hb) hne
        (blank_dropWhile _), List.takeWhile_append_dropWhile]

/-- Nothing is read that is not in the text. -/
theorem scanWord_subset {width : Nat} {s w r : Bytes} (h : scanWord width s = some (w, r)) :
    (∀ b ∈ w, b ∈ s) ∧ ∀ b ∈ r, b ∈ s := by
  unfold scanWord at h
  dsimp only at h
  split at h
  · cases h
  · cases h
    have hskip : ∀ b ∈ skipSpace s, b ∈ s := fun b hb => (List.dropWhile_suffix _).subset hb
    refine ⟨fun b hb => hskip b ?_, fun b hb => hskip b (List.mem_of_mem_drop hb)⟩
    exact (List.takeWhile_prefix _).subset (List.mem_of_mem_take hb)

/-- `%s` fails exactly on a blank input. -/
theorem scanWord_eq_none {width : Nat} (hw : 0 < width) {s : Bytes} :
    scanWord width s = none ↔ words s = [] := by
  rw [← words_skipSpace s]
  unfold scanWord
  dsimp only
  cases hs : skipSpace s with
  | nil => simp [words_nil]
  | cons b t =>
    have hb : isSpace b = false := by
      have h := List.head?_dropWhile_not isSpace s
      rw [skipSpace] at hs
      rw [hs] at h
      simpa using h
    have hword : ((b :: t).takeWhile fun b => !isSpace b) ≠ [] := by simp [hb]
    have hwords : words (b :: t) ≠ [] := by
      have h := words_append (fun a ha => by simpa using List.mem_takeWhile_imp ha) hword
        (blank_dropWhile (b :: t))
      rw [List.takeWhile_append_dropWhile] at h
      rw [h]
      exact List.cons_ne_nil _ _
    have htake : ((b :: t).takeWhile fun b => !isSpace b).take width ≠ [] := by
      rw [Ne, List.take_eq_nil_iff]
      rintro (h | h)
      · omega
      · exact hword h
    simp [htake, hwords]

/-- On a text no longer than the width, `%s` reads word by word. -/
theorem scanWord_of_words {width : Nat} (hw : 0 < width) {s w : Bytes} {ws : List Bytes}
    (hlen : s.length ≤ width) (h : words s = w :: ws) :
    ∃ r, scanWord width s = some (w, r) ∧ words r = ws ∧ Blank r ∧ r.length ≤ s.length := by
  cases hs : scanWord width s with
  | none =>
    rw [(scanWord_eq_none hw).mp hs] at h
    cases h
  | some x =>
    obtain ⟨w', r⟩ := x
    obtain ⟨hwords, hr⟩ := words_of_scanWord hlen hs
    rw [h] at hwords
    cases hwords
    refine ⟨r, rfl, rfl, hr, ?_⟩
    unfold scanWord at hs
    dsimp only at hs
    split at hs
    · cases hs
    · cases hs
      have := (List.dropWhile_suffix (p := isSpace) (l := s)).length_le
      rw [List.length_drop]
      unfold skipSpace
      omega

/-- The text in front of its second word. -/
theorem split_of_words {s w : Bytes} {ws : List Bytes} (h : words s = w :: ws) :
    ∃ r, skipSpace s = w ++ r ∧ words r = ws ∧ Blank r ∧ w ≠ [] ∧
      ∀ b ∈ w, isSpace b = false := by
  obtain ⟨r, hs, hr, hb, -⟩ := scanWord_of_words (Nat.succ_pos s.length) (Nat.le_succ _) h
  unfold scanWord at hs
  dsimp only at hs
  split at hs
  · cases hs
  · rename_i hne
    cases hs
    have hpre := (List.take_prefix (s.length + 1) _).trans
      (List.takeWhile_prefix (fun b => !isSpace b) (l := skipSpace s))
    refine ⟨_, (List.prefix_iff_eq_append.mp hpre).symm, hr, hb, hne, fun b hbw => ?_⟩
    simpa using List.mem_takeWhile_imp (List.mem_of_mem_take hbw)

theorem words_eq_nil {s : Bytes} : words s = [] ↔ skipSpace s = [] := by
  rw [← scanWord_eq_none Nat.one_pos]
  unfold scanWord
  dsimp only
  cases hs : skipSpace s with
  | nil => simp
  | cons b t =>
    have hb : isSpace b = false := by
      have h := List.head?_dropWhile_not isSpace s
      rw [skipSpace] at hs
      rw [hs] at h
      simpa using h
    simp [hb]

/-- A byte that is not white space is in some word. -/
theorem mem_words {s : Bytes} {b : Byte} (hb : b ∈ s) (hs : isSpace b = false) :
    ∃ w ∈ words s, b ∈ w := by
  have hflat : ∀ s : Bytes, (s.splitOnP isSpace).flatten = s.filter fun b => !isSpace b := by
    intro s
    induction s with
    | nil => simp
    | cons a s ih =>
      rw [List.splitOnP_cons_eq_if_modifyHead]
      cases ha : isSpace a with
      | true => simp [ih, ha]
      | false =>
        obtain ⟨l, ls, hl⟩ := List.exists_cons_of_ne_nil (List.splitOnP_ne_nil isSpace s)
        rw [hl] at ih ⊢
        simp [ha, ← ih]
  have hmem : b ∈ (s.splitOnP isSpace).flatten := by
    rw [hflat]
    exact List.mem_filter.mpr ⟨hb, by rw [hs]; rfl⟩
  obtain ⟨w, hw, hbw⟩ := List.mem_flatten.mp hmem
  exact ⟨w, List.mem_filter.mpr ⟨hw, by simpa using List.ne_nil_of_mem hbw⟩, hbw⟩

/-- A first word without a NUL is in the C string. -/
theorem words_cstr {s w : Bytes} {ws : List Bytes} (h : words s = w :: ws) (h0 : 0 ∉ w) :
    ∃ r, words (cstr s) = w :: words r := by
  obtain ⟨r, hs, -, hb, hne, hw⟩ := split_of_words h
  have hsplit : s = s.takeWhile isSpace ++ (w ++ r) := by
    rw [← hs]
    exact List.takeWhile_append_dropWhile.symm
  have hspace : ∀ b ∈ s.takeWhile isSpace, isSpace b = true := fun b hb => List.mem_takeWhile_imp hb
  have hskip : ∀ (l t : Bytes), (∀ b ∈ l, isSpace b = true) → words (l ++ t) = words t := by
    intro l t hl
    induction l with
    | nil => rfl
    | cons b l ih =>
      rw [List.cons_append, words_space (hl b List.mem_cons_self)]
      exact ih fun b hb => hl b (List.mem_cons_of_mem _ hb)
  have hblank : Blank (cstr r) := by
    cases r with
    | nil => exact fun b hb => by cases hb
    | cons a r =>
      intro b hbr
      unfold cstr at hbr
      rw [List.takeWhile_cons] at hbr
      split at hbr
      · exact hb b hbr
      · cases hbr
  have hzero : 0 ∉ s.takeWhile isSpace := fun h => absurd (hspace 0 h) (by decide)
  refine ⟨cstr r, ?_⟩
  rw [hsplit, cstr_append hzero, cstr_append h0, hskip _ _ hspace]
  exact words_append hw hne hblank

/-! ## 4. Numerals -/

/-- The integer a word denotes: an optional sign and digits, and nothing else. -/
def intToken (t : Bytes) : Option Int :=
  match signedPrefix t with
  | some (n, []) => some n
  | _ => none

theorem signedPrefix_of_intToken {t : Bytes} {n : Int} (h : intToken t = some n) :
    signedPrefix t = some (n, []) := by
  unfold intToken at h
  split at h
  · rename_i n' h'
    cases h
    exact h'
  · cases h

/-- The digits of a prefix are all of the text behind the sign when nothing follows them. -/
theorem digits_of_intToken {t : Bytes} {n : Int} (h : intToken t = some n) :
    (scanSign t).2 ≠ [] ∧ ∀ b ∈ (scanSign t).2, isDigit b = true := by
  have hp := signedPrefix_of_intToken h
  unfold signedPrefix at hp
  dsimp only at hp
  split at hp
  · cases hp
  · rename_i hne
    have hdrop := congrArg Prod.snd (Option.some.inj hp)
    have hall : (scanSign t).2.takeWhile isDigit = (scanSign t).2 := by
      have hpre := List.takeWhile_prefix (p := isDigit) (l := (scanSign t).2)
      refine hpre.eq_of_length (le_antisymm hpre.length_le ?_)
      exact List.drop_eq_nil_iff.mp hdrop
    rw [hall] at hne
    exact ⟨hne, fun b hb => List.mem_takeWhile_imp (hall ▸ hb)⟩

/-- A word that denotes an integer is read whole where no digit follows it. -/
theorem signedPrefix_append {t r : Bytes} {n : Int} (h : intToken t = some n)
    (hr : ∀ b ∈ r.head?, isDigit b = false) : signedPrefix (t ++ r) = some (n, r) := by
  obtain ⟨hne, hdig⟩ := digits_of_intToken h
  have hp := signedPrefix_of_intToken h
  have hsign : scanSign (t ++ r) = ((scanSign t).1, (scanSign t).2 ++ r) := by
    cases t with
    | nil => exact absurd rfl hne
    | cons b t =>
      unfold scanSign
      dsimp only [List.cons_append]
      split <;> [rfl; (split <;> rfl)]
  have htake : ((scanSign t).2 ++ r).takeWhile isDigit = (scanSign t).2 := by
    rw [List.takeWhile_append_of_pos hdig]
    cases r with
    | nil => simp
    | cons b r => simp [hr b rfl]
  have hself : (scanSign t).2.takeWhile isDigit = (scanSign t).2 :=
    List.takeWhile_eq_self_iff.mpr hdig
  unfold signedPrefix at hp ⊢
  dsimp only at hp ⊢
  rw [hself, if_neg hne] at hp
  rw [hsign]
  dsimp only
  have hval := congrArg Prod.fst (Option.some.inj hp)
  rw [htake, if_neg hne, List.drop_left]
  exact congrArg some (Prod.ext hval rfl)

/-- The longest optionally signed digit prefix is a word that denotes an integer. -/
theorem signedPrefix_split {s r : Bytes} {n : Int} (h : signedPrefix s = some (n, r)) :
    ∃ t, s = t ++ r ∧ intToken t = some n := by
  unfold signedPrefix at h
  dsimp only at h
  split at h
  · cases h
  · rename_i hne
    cases h
    have hds : ∀ b ∈ (scanSign s).2.takeWhile isDigit, isDigit b = true := fun b hb =>
      List.mem_takeWhile_imp hb
    have hself := List.takeWhile_eq_self_iff.mpr hds
    have happ : (scanSign s).2 = (scanSign s).2.takeWhile isDigit
        ++ (scanSign s).2.drop ((scanSign s).2.takeWhile isDigit).length :=
      (List.prefix_iff_eq_append.mp (List.takeWhile_prefix _)).symm
    generalize (scanSign s).2.takeWhile isDigit = ds at hne hds hself happ ⊢
    generalize (scanSign s).2.drop ds.length = r at happ ⊢
    -- the sign belongs to the word
    have hword : ∃ t, s = t ++ r ∧ scanSign t = ((scanSign s).1, ds) := by
      cases s with
      | nil =>
        have hnil : ([] : Bytes) = ds ++ r := happ
        exact absurd (List.append_eq_nil_iff.mp hnil.symm).1 hne
      | cons b s =>
        unfold scanSign at happ ⊢
        dsimp only at happ ⊢
        split at happ
        · rename_i hb
          exact ⟨b :: ds, congrArg (b :: ·) happ, by simp [hb]⟩
        · rename_i hb
          split at happ
          · rename_i hb'
            exact ⟨b :: ds, congrArg (b :: ·) happ, by simp [hb']⟩
          · rename_i hb'
            refine ⟨ds, happ, ?_⟩
            cases ds with
            | nil => exact absurd rfl hne
            | cons d ds =>
              cases happ
              simp [hb, hb']
    obtain ⟨t, ht, hsign⟩ := hword
    refine ⟨t, ht, ?_⟩
    unfold intToken signedPrefix
    simp [hsign, hself, hne]

/-- A word that denotes an integer is a sign and digits: no white space and no NUL. -/
theorem intToken_bytes {t : Bytes} {n : Int} (h : intToken t = some n) :
    t ≠ [] ∧ ∀ b ∈ t, isSpace b = false ∧ b ≠ 0 := by
  obtain ⟨hne, hdig⟩ := digits_of_intToken h
  have hd : ∀ b, isDigit b = true → isSpace b = false ∧ b ≠ 0 := fun b hb =>
    ⟨not_isSpace_of_isDigit hb, by rintro rfl; exact absurd hb (by decide)⟩
  cases t with
  | nil => exact absurd rfl hne
  | cons a t =>
    refine ⟨List.cons_ne_nil _ _, fun b hb => ?_⟩
    unfold scanSign at hdig
    dsimp only at hdig
    split at hdig
    · rename_i ha
      rcases List.mem_cons.mp hb with rfl | hb
      · rw [ha]
        decide
      · exact hd b (hdig b hb)
    · split at hdig
      · rename_i ha
        rcases List.mem_cons.mp hb with rfl | hb
        · rw [ha]
          decide
        · exact hd b (hdig b hb)
      · exact hd b (hdig b hb)

/-- `%d` reads a first word that denotes an integer, whole. -/
theorem numeral_of_words {s t : Bytes} {ws : List Bytes} {n : Int} (h : words s = t :: ws)
    (ht : intToken t = some n) :
    ∃ r, numeral s = some (n, r) ∧ words r = ws ∧ Blank r := by
  obtain ⟨r, hs, hr, hb, -⟩ := split_of_words h
  refine ⟨r, ?_, hr, hb⟩
  unfold numeral
  rw [hs]
  refine signedPrefix_append ht fun b hbr => ?_
  by_contra hd
  have := not_isSpace_of_isDigit (Bool.eq_true_of_not_eq_false hd)
  rw [hb b hbr] at this
  cases this

/-- What `%d` reads in front of white space is a word. -/
theorem words_of_numeral {s r : Bytes} {n : Int} (h : numeral s = some (n, r)) (hr : Blank r) :
    ∃ t, words s = t :: words r ∧ intToken t = some n := by
  obtain ⟨t, hs, ht⟩ := signedPrefix_split h
  obtain ⟨hne, hbytes⟩ := intToken_bytes ht
  refine ⟨t, ?_, ht⟩
  rw [← words_skipSpace s, hs]
  exact words_append (fun b hb => (hbytes b hb).1) hne hr

/-! ## 5. Numbers printed and read back -/

theorem isDigit_of_mem_decimal {n : Nat} {b : Byte} (h : b ∈ decimal n) : isDigit b = true := by
  unfold decimal at h
  split at h
  · cases List.mem_singleton.mp h
    decide
  · obtain ⟨d, hd, rfl⟩ := List.mem_map.mp h
    have hlt : d < 10 := Nat.digits_lt_base (by omega) (List.mem_reverse.mp hd)
    interval_cases d <;> decide

/-- No control character, and so neither a NUL nor the end of a line. -/
def Printable (text : Bytes) : Prop := ∀ b ∈ text, 32 ≤ b

instance (text : Bytes) : Decidable (Printable text) := List.decidableBAll (fun b => 32 ≤ b) text

theorem Printable.append {a b : Bytes} (ha : Printable a) (hb : Printable b) :
    Printable (a ++ b) := by
  intro x hx
  exact (List.mem_append.mp hx).elim (ha x) (hb x)

theorem Printable.not_mem {text : Bytes} (h : Printable text) {b : Byte} (hb : b < 32) :
    b ∉ text := fun hmem => absurd (h b hmem) (UInt8.not_le.mpr hb)

theorem printable_decimal (n : Nat) : Printable (decimal n) := by
  intro b hb
  have h := isDigit_of_mem_decimal hb
  unfold isDigit at h
  rw [Bool.and_eq_true, decide_eq_true_eq] at h
  exact UInt8.le_trans (by decide) h.1

theorem printable_decimalInt (n : Int) : Printable (decimalInt n) := by
  unfold decimalInt
  split
  · exact List.forall_mem_cons.mpr ⟨by decide, printable_decimal _⟩
  · exact printable_decimal _

theorem decimal_ne_nil (n : Nat) : decimal n ≠ [] := by
  unfold decimal
  split
  · exact List.cons_ne_nil _ _
  · rename_i hn
    simpa using Nat.digits_ne_nil_iff_ne_zero.mpr hn

theorem digitsVal_concat (ds : Bytes) (b : Byte) :
    digitsVal (ds ++ [b]) = digitsVal ds * 10 + (b.toNat - 48) := by
  simp [digitsVal]

/-- The digits of a number have its value. -/
theorem digitsVal_decimal (n : Nat) : digitsVal (decimal n) = n := by
  have hdigits : ∀ ds : List Nat, (∀ d ∈ ds, d < 10) →
      digitsVal (ds.reverse.map fun d => (48 + d).toUInt8) = Nat.ofDigits 10 ds := by
    intro ds
    induction ds with
    | nil => intro _; rfl
    | cons d ds ih =>
      intro h
      have hd : d < 10 := h d List.mem_cons_self
      have hbyte : (48 + d).toUInt8.toNat - 48 = d := by interval_cases d <;> rfl
      rw [List.reverse_cons, List.map_append, List.map_singleton, digitsVal_concat,
        ih fun x hx => h x (List.mem_cons_of_mem _ hx), hbyte, Nat.ofDigits_cons, mul_comm,
        add_comm]
  unfold decimal
  split
  · rename_i hn
    rw [hn]
    rfl
  · rw [hdigits _ fun d hd => Nat.digits_lt_base (by omega) hd, Nat.ofDigits_digits]

/-- A string of digits is a number, and nothing follows it. -/
theorem signedPrefix_digits {ds : Bytes} (hne : ds ≠ []) (h : ∀ b ∈ ds, isDigit b = true) :
    signedPrefix ds = some ((digitsVal ds : Int), []) := by
  have hsign : scanSign ds = (false, ds) := by
    cases ds with
    | nil => rfl
    | cons b ds =>
      have hb := h b List.mem_cons_self
      have h45 : b ≠ 45 := fun he => absurd (he ▸ hb) (by decide)
      have h43 : b ≠ 43 := fun he => absurd (he ▸ hb) (by decide)
      rw [scanSign, if_neg h45, if_neg h43]
  unfold signedPrefix
  rw [hsign]
  dsimp only
  rw [List.takeWhile_eq_self_iff.mpr h, if_neg hne, List.drop_length]
  rfl

/-- **A number is read back from its text.** -/
theorem numeral_decimal (n : Nat) : numeral (decimal n) = some ((n : Int), []) := by
  have hskip : skipSpace (decimal n) = decimal n := by
    cases hd : decimal n with
    | nil => rfl
    | cons b ds =>
      have hb : isDigit b = true := isDigit_of_mem_decimal (hd ▸ List.mem_cons_self)
      rw [skipSpace, List.dropWhile_cons_of_neg (by rw [not_isSpace_of_isDigit hb]; decide)]
  rw [numeral, hskip, signedPrefix_digits (decimal_ne_nil n) fun _ => isDigit_of_mem_decimal,
    digitsVal_decimal]

end CText
