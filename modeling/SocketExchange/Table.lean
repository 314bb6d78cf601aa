/-
# The connection table in memory: `growConns`, `registerClient`, `removeClient`

`World.lean` has the table as the list `conns`, with its length for `curr_cap`.  Here the table
is an array of cells and an `int`.  What `realloc` returns ends in cells with nothing in them,
which the loop behind it clears; an access outside the array or to such a cell fails, and so
does an `int` that overflows.  `log` notes the calls of `close`, and those of `registerClient`
with `curr_cap` as it was then.

`Sound` is the invariant: the array is as long as `curr_cap` says, and a cell is `NULL` or holds
a connection with the cell's own number, which is an open descriptor.  That last part is why a
registration meets an empty cell: `accept` returns no open descriptor.  `connection_table` has
the invariant in every run, and what each turn of `acceptClients` does in it.  The table of
`World.lean` is this one (`acceptClient_ofWorld`, `removeClient_ofWorld`).
-/
import SocketExchange.Server

namespace SocketExchange

/-! ## 1. The table -/

/-- A cell of the array `conns` points to. -/
inductive Cell
  /-- nothing has been written to it -/
  | uninit
  | null
  | conn (c : ClientConnection)
  deriving DecidableEq, Repr

inductive TableCall
  | registerClient (clientFd : Nat) (currCap : Int)
  | close (clientFd : Nat)
  deriving DecidableEq, Repr

structure ConnTable where
  conns : List Cell
  currCap : Int
  /-- the open descriptors of the process -/
  opened : List Nat
  /-- how many connections were registered so far -/
  accepts : Nat
  log : List TableCall
  deriving DecidableEq, Repr

namespace ConnTable

/-- After the `calloc` of `main`. -/
def init (opened : List Nat) : ConnTable :=
  { conns := List.replicate minCapacity .null, currCap := minCapacity, opened := opened
    accepts := 0, log := [] }

/-- `conns[client_fd] = …` -/
def store (t : ConnTable) (clientFd : Nat) (cell : Cell) : Option ConnTable :=
  if clientFd < t.conns.length then some { t with conns := t.conns.set clientFd cell } else none

def close (t : ConnTable) (clientFd : Nat) : ConnTable :=
  { t with opened := t.opened.filter fun fd => fd != clientFd
           log := t.log ++ [.close clientFd] }

/-! ## 2. The operations -/

/-- `new_cap *= 2` -/
def doubled (newCap : Int) : Option Int := if newCap * 2 < 2 ^ 31 then some (newCap * 2) else none

/-- `while (client_fd >= new_cap) new_cap *= 2;` -/
def newCapFor (clientFd : Nat) : Nat → Int → Option Int
  | 0, _ => none
  | fuel + 1, newCap =>
    if clientFd ≥ newCap then (doubled newCap).bind (newCapFor clientFd fuel) else some newCap

/-- The array `realloc` returns. -/
def realloc (cells : List Cell) (n : Nat) : List Cell :=
  cells.take n ++ List.replicate (n - cells.length) .uninit

/-- `n` turns of the loop that clears the cells from `j` on. -/
def clearFrom (j : Nat) : Nat → List Cell → Option (List Cell)
  | 0, cells => some cells
  | n + 1, cells => if j < cells.length then clearFrom (j + 1) n (cells.set j .null) else none

def growConns (fuel clientFd : Nat) (grown : Bool) (t : ConnTable) : Option (Bool × ConnTable) := do
  let newCap ← newCapFor clientFd fuel t.currCap
  if grown then
    let newConns ← clearFrom t.currCap.toNat (newCap - t.currCap).toNat
      (realloc t.conns newCap.toNat)
    some (true, { t with conns := newConns, currCap := newCap })
  else some (false, t)

def registerClient (clientFd : Nat) (calloced armed : Bool) (t : ConnTable) :
    Option (Bool × ConnTable) := do
  let t := { t with log := t.log ++ [TableCall.registerClient clientFd t.currCap] }
  if calloced then
    let t ← t.store clientFd (.conn (.fresh clientFd t.accepts))
    if armed then some (true, { t with accepts := t.accepts + 1 })
    else
      let t ← t.store clientFd .null
      some (false, t.close clientFd)
  else
    let t ← t.store clientFd .null
    some (false, t.close clientFd)

/-- One turn of the loop of `acceptClients`, for a descriptor `accept` returned. -/
def acceptClient (fuel clientFd : Nat) (grown calloced armed : Bool) (t : ConnTable) :
    Option ConnTable := do
  let t := { t with opened := clientFd :: t.opened }
  if (clientFd : Int) ≥ t.currCap then
    let g ← growConns fuel clientFd grown t
    if g.1 then (registerClient clientFd calloced armed g.2).map Prod.snd
    else some (g.2.close clientFd)
  else (registerClient clientFd calloced armed t).map Prod.snd

def removeClient (clientFd : Nat) (t : ConnTable) : Option ConnTable :=
  if clientFd < t.currCap then
    match t.conns[clientFd]? with
    | some (.conn _) => (t.store clientFd .null).map fun t => t.close clientFd
    | some .null => some (t.close clientFd)
    | _ => none
  else some (t.close clientFd)

/-! ## 3. The invariant -/

/-- **The table is consistent.** -/
structure Sound (t : ConnTable) : Prop where
  cap : ∃ k ≤ 27, t.currCap = 10 * 2 ^ k
  length : (t.conns.length : Int) = t.currCap
  /-- a connection is in the cell of its descriptor, which is open -/
  cells : ∀ i cell, t.conns[i]? = some cell →
    cell = .null ∨ ∃ c, cell = .conn c ∧ c.clientFd = i ∧ i ∈ t.opened
  registered : ∀ (fd : Nat) (cap : Int), .registerClient fd cap ∈ t.log → fd < cap

theorem sound_init (opened : List Nat) : Sound (init opened) := by
  refine ⟨⟨0, by omega, rfl⟩, rfl, fun i cell h => ?_, fun fd cap h => ?_⟩
  · exact .inl (List.eq_of_mem_replicate (List.mem_of_getElem? h))
  · cases h

/-! ## 4. Growth -/

section Growth

/-- The doubling ends, at a capacity above the descriptor, and no `int` overflows. -/
theorem newCapFor_eq {clientFd : Nat} (hfd : clientFd < 10 * 2 ^ 27) {fuel k : Nat} (hk : k ≤ 27)
    (hfuel : 27 - k < fuel) :
    ∃ k', k ≤ k' ∧ k' ≤ 27 ∧ newCapFor clientFd fuel (10 * 2 ^ k) = some (10 * 2 ^ k') ∧
      clientFd < 10 * 2 ^ k' := by
  induction fuel generalizing k with
  | zero => omega
  | succ fuel ih =>
    rw [newCapFor]
    by_cases hlt : clientFd < 10 * 2 ^ k
    · rw [if_neg (by push_cast [← Int.ofNat_lt] at hlt; omega)]
      exact ⟨k, le_refl k, hk, rfl, hlt⟩
    · have hk27 : k < 27 := by
        by_contra hge
        obtain rfl : k = 27 := by omega
        exact hlt hfd
      have hpow : (2 : Int) ^ k * 2 = 2 ^ (k + 1) := (pow_succ 2 k).symm
      have hmax : (2 : Int) ^ (k + 1) ≤ 2 ^ 27 := pow_le_pow_right₀ (by norm_num) (by omega)
      obtain ⟨k', hle, hle', hrun, hlt'⟩ := ih (k := k + 1) (by omega) (by omega)
      rw [if_pos (by push_cast [← Int.ofNat_lt] at hlt; omega), doubled, mul_assoc, hpow,
        if_pos (by norm_num at hmax ⊢; omega), Option.bind_some]
      exact ⟨k', by omega, hle', hrun, hlt'⟩

/-- The loop clears the cells that `realloc` added. -/
theorem clearFrom_eq (n : Nat) (cells : List Cell) :
    clearFrom cells.length n (cells ++ List.replicate n .uninit)
      = some (cells ++ List.replicate n .null) := by
  induction n generalizing cells with
  | zero => rfl
  | succ n ih =>
    rw [clearFrom, if_pos (by simp), List.replicate_succ, List.set_append_right _ _ (le_refl _),
      Nat.sub_self, List.set_cons_zero]
    have hnext := ih (cells ++ [.null])
    rw [List.length_append, List.append_assoc, List.append_assoc] at hnext
    exact hnext

variable {t : ConnTable} {fuel clientFd : Nat}

/-- The table with `n` more cells. -/
def grownBy (t : ConnTable) (n : Nat) : ConnTable :=
  { t with conns := t.conns ++ List.replicate n .null, currCap := t.currCap + n }

theorem growConns_failed (h : Sound t) (hfd : clientFd < 10 * 2 ^ 27) (hfuel : 27 < fuel) :
    growConns fuel clientFd false t = some (false, t) := by
  obtain ⟨k, hk, hcap⟩ := h.cap
  have hturns : 27 - k < fuel := by omega
  obtain ⟨k', -, -, hrun, -⟩ := newCapFor_eq hfd hk hturns
  rw [growConns, hcap, hrun]
  rfl

/-- **Growth** adds empty cells behind those there are, up to the descriptor's. -/
theorem growConns_grown (h : Sound t) (hfd : clientFd < 10 * 2 ^ 27) (hfuel : 27 < fuel) :
    ∃ n, growConns fuel clientFd true t = some (true, t.grownBy n) ∧
      Sound (t.grownBy n) ∧ clientFd < (t.grownBy n).currCap ∧
      newCapFor clientFd fuel t.currCap = some (t.currCap + n) := by
  obtain ⟨k, hk, hcap⟩ := h.cap
  have hturns : 27 - k < fuel := by omega
  obtain ⟨k', hle, hk', hrun, hlt⟩ := newCapFor_eq hfd hk hturns
  have hpow : (2 : Int) ^ k ≤ 2 ^ k' := pow_le_pow_right₀ (by norm_num) hle
  obtain ⟨n, hn⟩ : ∃ n : Nat, (10 : Int) * 2 ^ k' = t.currCap + n :=
    ⟨(10 * 2 ^ k' - t.currCap).toNat, by omega⟩
  have hnew : (t.currCap + n).toNat = t.conns.length + n := by rw [← h.length]; rfl
  have hadded : (t.currCap + n - t.currCap).toNat = n := by omega
  have hrealloc : realloc t.conns (t.conns.length + n)
      = t.conns ++ List.replicate n .uninit := by
    rw [realloc, List.take_of_length_le (Nat.le_add_right _ _), Nat.add_sub_cancel_left]
  refine ⟨n, ?_, ⟨⟨k', hk', hn.symm⟩, ?_, ?_, h.registered⟩, ?_, by rw [hcap, hrun, hn, hcap]⟩
  · rw [growConns, hcap, hrun, hn]
    simp only [Option.bind_eq_bind, Option.bind_some, if_true, ← hcap, hadded, hnew, hrealloc]
    rw [← h.length, Int.toNat_natCast, clearFrom_eq]
    simp only [Option.bind_some, grownBy, h.length]
  · simp only [grownBy, List.length_append, List.length_replicate, ← h.length]
    rfl
  · intro i cell hcell
    by_cases hi : i < t.conns.length
    · rw [grownBy, List.getElem?_append_left hi] at hcell
      exact h.cells i cell hcell
    · rw [grownBy, List.getElem?_append_right (not_lt.mp hi)] at hcell
      exact .inl (List.eq_of_mem_replicate (List.mem_of_getElem? hcell))
  · simp only [grownBy, ← hn]
    exact_mod_cast hlt

end Growth

/-! ## 5. Registration -/

section Registration

variable {t : ConnTable} {clientFd : Nat}

/-- The table with a new connection. -/
def withClient (t : ConnTable) (clientFd : Nat) : ConnTable :=
  { t with conns := t.conns.set clientFd (.conn (.fresh clientFd t.accepts))
           accepts := t.accepts + 1 }

def note (t : ConnTable) (call : TableCall) : ConnTable := { t with log := t.log ++ [call] }

theorem set_null (hnull : t.conns[clientFd]? = some .null) :
    t.conns.set clientFd .null = t.conns := by
  refine List.ext_getElem? fun i => ?_
  rw [List.getElem?_set]
  split
  · rename_i hi
    subst hi
    obtain ⟨hlt, -⟩ := List.getElem?_eq_some_iff.mp hnull
    rw [if_pos hlt, hnull]
  · rfl

/-- **A registration** in an empty cell: the connection is there, or the descriptor is closed and
the cell still empty. -/
theorem registerClient_eq (hnull : t.conns[clientFd]? = some .null) (calloced armed : Bool) :
    registerClient clientFd calloced armed t = some
      (if calloced && armed then
        (true, (t.note (.registerClient clientFd t.currCap)).withClient clientFd)
      else (false, (t.note (.registerClient clientFd t.currCap)).close clientFd)) := by
  obtain ⟨hlt, -⟩ := List.getElem?_eq_some_iff.mp hnull
  have hset := set_null hnull
  cases calloced <;> cases armed <;>
    simp [registerClient, store, hlt, hset, note, withClient, close]

/-! ## 6. A turn of `acceptClients` -/

/-- `accept` has returned a descriptor. -/
def opening (t : ConnTable) (clientFd : Nat) : ConnTable :=
  { t with opened := clientFd :: t.opened }

theorem Sound.opening (h : Sound t) (clientFd : Nat) : Sound (t.opening clientFd) := by
  refine ⟨h.cap, h.length, fun i cell hcell => ?_, h.registered⟩
  exact (h.cells i cell hcell).imp_right fun ⟨c, hc, hi, hopen⟩ =>
    ⟨c, hc, hi, List.mem_cons_of_mem _ hopen⟩

theorem Sound.note (h : Sound t) (hlt : clientFd < t.currCap) :
    Sound (t.note (.registerClient clientFd t.currCap)) := by
  refine ⟨h.cap, h.length, h.cells, fun fd cap hmem => ?_⟩
  rcases List.mem_append.mp hmem with hmem | hmem
  · exact h.registered fd cap hmem
  · cases List.mem_singleton.mp hmem
    exact hlt

theorem Sound.withClient (h : Sound t) (hopen : clientFd ∈ t.opened) :
    Sound (t.withClient clientFd) := by
  refine ⟨h.cap, ?_, fun i cell hcell => ?_, h.registered⟩
  · rw [ConnTable.withClient, List.length_set]
    exact h.length
  · rw [ConnTable.withClient, List.getElem?_set] at hcell
    split at hcell
    · rename_i hi
      subst hi
      split at hcell
      · cases hcell
        exact .inr ⟨_, rfl, rfl, hopen⟩
      · cases hcell
    · exact h.cells i cell hcell

theorem Sound.close (h : Sound t) (hcell : ∀ c, t.conns[clientFd]? ≠ some (.conn c)) :
    Sound (t.close clientFd) := by
  refine ⟨h.cap, h.length, fun i cell hi => ?_, fun fd cap hmem => ?_⟩
  · refine (h.cells i cell hi).imp_right fun ⟨c, hc, hown, hopen⟩ => ⟨c, hc, hown, ?_⟩
    refine List.mem_filter.mpr ⟨hopen, bne_iff_ne.mpr ?_⟩
    rintro rfl
    exact hcell c (hc ▸ hi)
  · rcases List.mem_append.mp hmem with hmem | hmem
    · exact h.registered fd cap hmem
    · cases List.mem_singleton.mp hmem

/-- A descriptor that is not open has an empty cell. -/
theorem Sound.null (h : Sound t) (hopen : clientFd ∉ t.opened) (hlt : clientFd < t.currCap) :
    t.conns[clientFd]? = some .null := by
  have hlen : clientFd < t.conns.length := by
    have := h.length
    omega
  rcases h.cells clientFd _ (List.getElem?_eq_getElem hlen) with hnull | ⟨c, -, -, hin⟩
  · rw [List.getElem?_eq_getElem hlen, hnull]
  · exact absurd hin hopen

end Registration

section Turn

variable {t : ConnTable} {fuel clientFd : Nat}

/-- What `registerClient` makes of a table that has the descriptor's cell. -/
def turn (t : ConnTable) (clientFd : Nat) (ok : Bool) : ConnTable :=
  let t' := (t.opening clientFd).note (.registerClient clientFd t.currCap)
  if ok then t'.withClient clientFd else t'.close clientFd

theorem registerClient_turn (h : Sound t) (hopen : clientFd ∉ t.opened) (hlt : clientFd < t.currCap)
    (calloced armed : Bool) :
    (registerClient clientFd calloced armed (t.opening clientFd)).map Prod.snd
      = some (t.turn clientFd (calloced && armed)) := by
  rw [registerClient_eq (t := t.opening clientFd) (h.null hopen hlt), turn]
  cases calloced && armed <;> rfl

theorem Sound.turn (h : Sound t) (hopen : clientFd ∉ t.opened) (hlt : clientFd < t.currCap)
    (ok : Bool) : Sound (t.turn clientFd ok) := by
  have hlt' : clientFd < (t.opening clientFd).currCap := hlt
  have hnote := (h.opening clientFd).note hlt'
  cases ok with
  | true => exact hnote.withClient List.mem_cons_self
  | false =>
    refine hnote.close fun c hc => ?_
    cases (h.null hopen hlt).symm.trans hc

theorem grownBy_zero (t : ConnTable) : t.grownBy 0 = t := by
  simp [grownBy]

/-- Growth does not look at the open descriptors. -/
theorem growConns_opening (fuel : Nat) (grown : Bool) (t : ConnTable) :
    growConns fuel clientFd grown (t.opening clientFd)
      = (growConns fuel clientFd grown t).map fun g => (g.1, g.2.opening clientFd) := by
  simp only [growConns, opening, Option.bind_eq_bind]
  cases newCapFor clientFd fuel t.currCap with
  | none => rfl
  | some newCap =>
    cases grown with
    | false => rfl
    | true =>
      simp only [Option.bind_some, if_true]
      cases clearFrom t.currCap.toNat (newCap - t.currCap).toNat
        (realloc t.conns newCap.toNat) <;> rfl

/-- **A turn of the loop**: the table has the cell, or gets it; or it cannot grow, and the
descriptor is closed. -/
theorem acceptClient_cases (h : Sound t) (hopen : clientFd ∉ t.opened)
    (hfd : clientFd < 10 * 2 ^ 27) (hfuel : 27 < fuel) (grown calloced armed : Bool) :
    (∃ n : Nat, (clientFd < t.currCap ∧ n = 0 ∨ ¬ clientFd < t.currCap ∧ grown = true ∧
        newCapFor clientFd fuel t.currCap = some (t.currCap + n)) ∧
      Sound (t.grownBy n) ∧ clientFd < (t.grownBy n).currCap ∧
      acceptClient fuel clientFd grown calloced armed t
        = some ((t.grownBy n).turn clientFd (calloced && armed))) ∨
    ¬ clientFd < t.currCap ∧ grown = false ∧
      acceptClient fuel clientFd grown calloced armed t
        = some ((t.opening clientFd).close clientFd) := by
  by_cases hlt : clientFd < t.currCap
  · refine .inl ⟨0, .inl ⟨hlt, rfl⟩, ?_⟩
    rw [grownBy_zero, ← registerClient_turn h hopen hlt]
    refine ⟨h, hlt, ?_⟩
    rw [acceptClient]
    exact if_neg (not_le.mpr hlt)
  · have hge : (clientFd : Int) ≥ t.currCap := not_lt.mp hlt
    have hrun : acceptClient fuel clientFd grown calloced armed t
        = (growConns fuel clientFd grown (t.opening clientFd)).bind fun g =>
          if g.1 then (registerClient clientFd calloced armed g.2).map Prod.snd
          else some (g.2.close clientFd) := if_pos hge
    cases grown with
    | false =>
      refine .inr ⟨hlt, rfl, ?_⟩
      rw [hrun, growConns_failed (h.opening clientFd) hfd hfuel]
      rfl
    | true =>
      obtain ⟨n, hgrow, hn, hlt', hcap⟩ := growConns_grown h hfd hfuel
      refine .inl ⟨n, .inr ⟨hlt, rfl, hcap⟩, hn, hlt', ?_⟩
      rw [hrun, growConns_opening, hgrow, ← registerClient_turn hn hopen hlt']
      rfl

/-- What a turn does, when `accept` has returned `clientFd`. -/
structure Accepted (t : ConnTable) (clientFd : Nat) (grown calloced armed : Bool)
    (t' : ConnTable) : Prop where
  /-- no connection is dropped, moved or overwritten -/
  kept : ∀ (i : Nat) c, t.conns[i]? = some (.conn c) →
    i ≠ clientFd ∧ t'.conns[i]? = some (.conn c)
  /-- a cell is as it was, or new and empty -/
  others : ∀ i : Nat, i ≠ clientFd → i < t'.currCap →
    t'.conns[i]? = some (t.conns[i]?.getD .null)
  cap : clientFd < t.currCap ∨ grown = false → t'.currCap = t.currCap
  registered : clientFd < t.currCap ∨ grown = true → calloced = true → armed = true →
    t'.conns[clientFd]? = some (.conn (.fresh clientFd t.accepts)) ∧
      t'.opened = clientFd :: t.opened ∧ clientFd < t'.currCap ∧
      t'.log = t.log ++ [.registerClient clientFd t'.currCap]
  /-- the descriptor is closed once and its cell, if there is one, is empty -/
  failed : ¬ ((clientFd < t.currCap ∨ grown = true) ∧ calloced = true ∧ armed = true) →
    (∀ cell, t'.conns[clientFd]? = some cell → cell = .null) ∧ t'.opened = t.opened ∧
      t'.log = t.log ++ (if clientFd < t.currCap ∨ grown = true then
        [.registerClient clientFd t'.currCap] else []) ++ [.close clientFd]

theorem grownBy_cell (h : Sound t) {n i : Nat} (hi : i < (t.grownBy n).currCap) :
    (t.grownBy n).conns[i]? = some (t.conns[i]?.getD .null) := by
  have hlen := h.length
  simp only [grownBy] at hi ⊢
  by_cases hlt : i < t.conns.length
  · rw [List.getElem?_append_left hlt, List.getElem?_eq_getElem hlt]
    rfl
  · rw [List.getElem?_append_right (not_lt.mp hlt), List.getElem?_replicate, if_pos (by omega),
      List.getElem?_eq_none (not_lt.mp hlt)]
    rfl

theorem turn_cell_ne {i : Nat} (hi : i ≠ clientFd) (ok : Bool) :
    (t.turn clientFd ok).conns[i]? = t.conns[i]? := by
  cases ok with
  | true => exact List.getElem?_set_ne (Ne.symm hi)
  | false => rfl

@[simp] theorem turn_currCap (t : ConnTable) (clientFd : Nat) (ok : Bool) :
    (t.turn clientFd ok).currCap = t.currCap := by
  cases ok <;> rfl

theorem opened_close (hopen : clientFd ∉ t.opened) :
    ((t.opening clientFd).close clientFd).opened = t.opened :=
  filter_opened hopen

/-- A turn that registers the connection. -/
theorem turn_true (h : Sound t) (hlt : clientFd < t.currCap) :
    (t.turn clientFd true).conns[clientFd]? = some (.conn (.fresh clientFd t.accepts)) ∧
      (t.turn clientFd true).opened = clientFd :: t.opened ∧
      (t.turn clientFd true).log = t.log ++ [.registerClient clientFd t.currCap] := by
  have hlen := h.length
  have hin : clientFd < t.conns.length := by omega
  exact ⟨List.getElem?_set_self hin, rfl, rfl⟩

/-- A turn that does not. -/
theorem turn_false (h : Sound t) (hopen : clientFd ∉ t.opened) (hlt : clientFd < t.currCap) :
    (t.turn clientFd false).conns[clientFd]? = some .null ∧
      (t.turn clientFd false).opened = t.opened ∧
      (t.turn clientFd false).log
        = t.log ++ [.registerClient clientFd t.currCap] ++ [.close clientFd] :=
  ⟨h.null hopen hlt, opened_close hopen, rfl⟩

theorem acceptClient_accepted (h : Sound t) (hopen : clientFd ∉ t.opened)
    (hfd : clientFd < 10 * 2 ^ 27) (hfuel : 27 < fuel) (grown calloced armed : Bool) :
    ∃ t', acceptClient fuel clientFd grown calloced armed t = some t' ∧ Sound t' ∧
      Accepted t clientFd grown calloced armed t' := by
  have hlive : ∀ (i : Nat) c, t.conns[i]? = some (.conn c) → i ≠ clientFd := by
    rintro i c hc rfl
    rcases h.cells i _ hc with hnull | ⟨-, -, -, hin⟩
    · cases hnull
    · exact hopen hin
  rcases acceptClient_cases h hopen hfd hfuel grown calloced armed with
    ⟨n, hgrown, hn, hlt, hrun⟩ | ⟨hlt, rfl, hrun⟩
  · have hroom : clientFd < t.currCap ∨ grown = true := hgrown.imp And.left fun h => h.2.1
    refine ⟨_, hrun, hn.turn hopen hlt _, ?_, ?_, ?_, ?_, ?_⟩
    · intro i c hc
      refine ⟨hlive i c hc, ?_⟩
      rw [turn_cell_ne (hlive i c hc), grownBy, List.getElem?_append_left
        (List.getElem?_eq_some_iff.mp hc).1, hc]
    · intro i hi hcap
      rw [turn_currCap] at hcap
      rw [turn_cell_ne hi, grownBy_cell h hcap]
    · intro hcap
      rw [turn_currCap]
      rcases hgrown with ⟨-, rfl⟩ | ⟨hge, hyes, -⟩
      · rw [grownBy_zero]
      · rcases hcap with hcap | hcap
        · exact absurd hcap hge
        · cases hyes.symm.trans hcap
    · rintro - rfl rfl
      obtain ⟨hcell, hopened, hlog⟩ := turn_true hn hlt
      rw [Bool.and_self, turn_currCap]
      exact ⟨hcell, hopened, hlt, hlog⟩
    · intro hno
      have hbad : (calloced && armed) = false := by
        rw [Bool.eq_false_iff, ne_eq, Bool.and_eq_true]
        exact fun hboth => hno ⟨hroom, hboth⟩
      obtain ⟨hcell, hopened, hlog⟩ := turn_false hn hopen hlt
      rw [hbad, turn_currCap, if_pos hroom]
      exact ⟨fun cell hc => (Option.some.inj (hcell.symm.trans hc)).symm, hopened, hlog⟩
  · have hno : ¬ (clientFd < t.currCap ∨ false = true) := fun hroom =>
      hroom.elim hlt Bool.false_ne_true
    refine ⟨_, hrun, (h.opening clientFd).close fun c hc => hlive clientFd c hc rfl, ?_, ?_, ?_,
      ?_, ?_⟩
    · exact fun i c hc => ⟨hlive i c hc, hc⟩
    · intro i _ hcap
      have hcell := grownBy_cell (n := 0) h (by rwa [grownBy_zero])
      rwa [grownBy_zero] at hcell
    · exact fun _ => rfl
    · exact fun hroom => absurd hroom hno
    · intro _
      refine ⟨fun cell hcell => ?_, opened_close hopen, ?_⟩
      · have hlen := h.length
        have hin : clientFd < t.conns.length := (List.getElem?_eq_some_iff.mp hcell).1
        exact absurd (by omega) hlt
      · rw [if_neg hno, List.append_nil]
        rfl

theorem Sound.emptied (h : Sound t) (clientFd : Nat) :
    Sound { t with conns := t.conns.set clientFd .null } := by
  refine ⟨h.cap, ?_, fun i cell hcell => ?_, h.registered⟩
  · rw [List.length_set]
    exact h.length
  · simp only [List.getElem?_set] at hcell
    split at hcell
    · split at hcell
      · cases hcell
        exact .inl rfl
      · cases hcell
    · exact h.cells i cell hcell

/-- A removal empties one cell and closes the descriptor once. -/
theorem removeClient_removed (h : Sound t) (clientFd : Nat) :
    ∃ t', removeClient clientFd t = some t' ∧ Sound t' ∧ t'.currCap = t.currCap ∧
      (∀ i, i ≠ clientFd → t'.conns[i]? = t.conns[i]?) ∧
      (∀ c, t'.conns[clientFd]? ≠ some (.conn c)) ∧ t'.log = t.log ++ [.close clientFd] := by
  have hlen := h.length
  by_cases hlt : clientFd < t.currCap
  · have hin : clientFd < t.conns.length := by omega
    have hcell := List.getElem?_eq_getElem hin
    rcases h.cells clientFd _ hcell with hnull | ⟨c, hc, -⟩
    · rw [hnull] at hcell
      have hno : ∀ c, t.conns[clientFd]? ≠ some (.conn c) := by
        intro c hc
        cases hcell.symm.trans hc
      refine ⟨t.close clientFd, ?_, h.close hno, rfl, fun _ _ => rfl, hno, rfl⟩
      rw [removeClient, if_pos hlt, hcell]
    · rw [hc] at hcell
      have hself : (t.conns.set clientFd .null)[clientFd]? = some .null :=
        List.getElem?_set_self hin
      have hno : ∀ c, (t.conns.set clientFd .null)[clientFd]? ≠ some (.conn c) := by
        intro c hc
        cases hself.symm.trans hc
      refine ⟨_, ?_, (h.emptied clientFd).close hno, rfl,
        fun i hi => List.getElem?_set_ne (Ne.symm hi), hno, rfl⟩
      rw [removeClient, if_pos hlt, hcell]
      simp only [store, if_pos hin, Option.map_some]
  · have hno : ∀ c, t.conns[clientFd]? ≠ some (.conn c) := by
      intro c hc
      have hin : clientFd < t.conns.length := (List.getElem?_eq_some_iff.mp hc).1
      exact absurd (by omega) hlt
    exact ⟨_, if_neg hlt, h.close hno, rfl, fun _ _ => rfl, hno, rfl⟩

end Turn

/-! ## 7. The table of `World.lean` -/

section OfWorld

variable {w : World} {log : List TableCall} {fuel clientFd : Nat}

/-- `NULL`, or a pointer to the connection. -/
def cellOf : Option ClientConnection → Cell
  | none => .null
  | some c => .conn c

def ofWorld (w : World) (log : List TableCall) : ConnTable :=
  { conns := w.conns.map cellOf, currCap := w.currCap, opened := w.opened, accepts := w.accepts
    log := log }

/-- The doubling on `int` and the one on `Nat`. -/
theorem newCapFor_newCap {fuel' cap : Nat} {m : Int} (h : newCapFor clientFd fuel cap = some m)
    (hlt : clientFd < cap * 2 ^ fuel') : (newCap clientFd fuel' cap : Int) = m := by
  induction fuel' generalizing fuel cap with
  | zero =>
    cases fuel with
    | zero => cases h
    | succ fuel =>
      rw [newCapFor, if_neg (by omega)] at h
      exact Option.some.inj h
  | succ fuel' ih =>
    cases fuel with
    | zero => cases h
    | succ fuel =>
      rw [newCap]
      by_cases hge : clientFd ≥ cap
      · rw [newCapFor, if_pos (by omega), doubled] at h
        rw [if_pos hge]
        split at h
        · exact ih h (by rwa [mul_assoc, ← pow_succ'])
        · cases h
      · rw [newCapFor, if_neg (by omega)] at h
        rw [if_neg hge]
        exact Option.some.inj h

theorem turn_ofWorld (h : Sound (ofWorld w log)) (hopen : clientFd ∉ w.opened)
    (hlt : clientFd < w.currCap) (calloced armed : Bool) :
    (ofWorld w log).turn clientFd (calloced && armed)
      = ofWorld (SocketExchange.registerClient clientFd calloced armed
          { w with opened := clientFd :: w.opened })
        ((ofWorld w log).turn clientFd (calloced && armed)).log := by
  have hnull : (w.conns.map cellOf)[clientFd]? = some .null :=
    h.null hopen (Int.ofNat_lt.mpr hlt)
  have hempty : (w.conns.set clientFd none).map cellOf = w.conns.map cellOf := by
    rw [List.map_set]
    exact set_null (t := ofWorld w log) hnull
  cases calloced <;> cases armed <;>
    simp [turn, ofWorld, SocketExchange.registerClient, opening, note, withClient, close, hempty,
      World.currCap, World.note, cellOf]

theorem grownBy_ofWorld (w : World) (log : List TableCall) (n : Nat) :
    (ofWorld w log).grownBy n
      = ofWorld { w with conns := w.conns ++ List.replicate n none } log := by
  simp [grownBy, ofWorld, World.currCap, cellOf]

/-- **A turn of `acceptClients` in the world** is the one here. -/
theorem acceptClient_ofWorld (h : Sound (ofWorld w log)) (hopen : clientFd ∉ w.opened)
    (hfd : clientFd < 10 * 2 ^ 27) (hfuel : 27 < fuel) (grown calloced armed : Bool) :
    ∃ log', acceptClient fuel clientFd grown calloced armed (ofWorld w log)
      = some (ofWorld (SocketExchange.acceptClient clientFd grown calloced armed w) log') := by
  rcases acceptClient_cases h hopen hfd hfuel grown calloced armed with
    ⟨n, hgrown, hn, hlt, hrun⟩ | ⟨hge, rfl, hrun⟩
  · rw [grownBy_ofWorld] at hn hlt hrun
    have hworld : SocketExchange.acceptClient clientFd grown calloced armed w
        = SocketExchange.registerClient clientFd calloced armed
          { w with conns := w.conns ++ List.replicate n none, opened := clientFd :: w.opened } := by
      rcases hgrown with ⟨hroom, rfl⟩ | ⟨hge, rfl, hcap⟩
      · have hin : clientFd < w.currCap := Int.ofNat_lt.mp hroom
        rw [List.replicate_zero, List.append_nil]
        exact if_neg (not_le.mpr hin)
      · have hout : clientFd ≥ w.currCap := not_lt.mp fun hin => hge (Int.ofNat_lt.mpr hin)
        have hpos : 0 < w.currCap := by
          obtain ⟨k, -, hk⟩ := h.cap
          have hpow : (0 : Int) < 2 ^ k := by positivity
          have hcast : (w.currCap : Int) = 10 * 2 ^ k := hk
          omega
        have hnew : (newCap clientFd (clientFd + 1) w.currCap : Int) = w.currCap + n :=
          newCapFor_newCap hcap (lt_mul_two_pow hpos clientFd)
        have hadded : newCap clientFd (clientFd + 1) w.currCap - w.currCap = n := by omega
        refine (if_pos hout).trans ?_
        simp only [SocketExchange.growConns, if_true, World.currCap] at hadded ⊢
        rw [hadded]
    rw [hrun, turn_ofWorld hn hopen (Int.ofNat_lt.mp hlt), hworld]
    exact ⟨_, rfl⟩
  · have hout : clientFd ≥ w.currCap := not_lt.mp fun hin => hge (Int.ofNat_lt.mpr hin)
    have hworld : SocketExchange.acceptClient clientFd false calloced armed w
        = { w with opened := (clientFd :: w.opened).filter fun fd => fd != clientFd } :=
      if_pos hout
    rw [hrun, hworld]
    exact ⟨_, rfl⟩

theorem removeClient_conns (clientFd : Nat) (w : World) :
    (SocketExchange.removeClient clientFd w).conns = w.conns.set clientFd none := by
  unfold SocketExchange.removeClient
  dsimp only
  split
  · rename_i hnone
    have hslot : w.conns[clientFd]?.join = none := hnone
    refine List.ext_getElem? fun i => ?_
    by_cases hi : clientFd = i
    · subst hi
      rw [List.getElem?_set_self']
      cases hs : w.conns[clientFd]? with
      | none => rfl
      | some s =>
        rw [hs] at hslot
        exact congrArg some hslot
    · exact (List.getElem?_set_ne hi).symm
  · rfl

/-- So is a removal. -/
theorem removeClient_ofWorld (w : World) (log : List TableCall) (clientFd : Nat) :
    removeClient clientFd (ofWorld w log)
      = some (ofWorld (SocketExchange.removeClient clientFd w) (log ++ [.close clientFd])) := by
  have hresult : ofWorld (SocketExchange.removeClient clientFd w) (log ++ [.close clientFd])
      = ConnTable.close { ofWorld w log with
          conns := (w.conns.map cellOf).set clientFd .null } clientFd := by
    simp only [ofWorld, removeClient_conns, removeClient_currCap, removeClient_opened,
      removeClient_accepts, close, List.map_set, cellOf]
  have hcell : (ofWorld w log).conns[clientFd]? = (w.conns[clientFd]?).map cellOf :=
    List.getElem?_map ..
  have hcap : (ofWorld w log).currCap = w.conns.length := rfl
  rw [hresult, removeClient, hcell, hcap]
  by_cases hlt : clientFd < w.conns.length
  · have hin : clientFd < (ofWorld w log).conns.length := by simpa [ofWorld] using hlt
    rw [List.getElem?_eq_getElem hlt] at hcell ⊢
    rw [if_pos (Int.ofNat_lt.mpr hlt)]
    cases hs : w.conns[clientFd] with
    | none =>
      rw [hs] at hcell
      have hempty := set_null hcell
      simp only [ofWorld] at hempty
      simp only [Option.map_some, cellOf, hempty]
      rfl
    | some c =>
      simp only [Option.map_some, cellOf, store, if_pos hin]
      rfl
  · have hempty : (w.conns.map cellOf).set clientFd .null = w.conns.map cellOf :=
      List.set_eq_of_length_le (by simpa using hlt)
    rw [if_neg (fun h => hlt (Int.ofNat_lt.mp h)), hempty]
    rfl

end OfWorld

end ConnTable

/-! ## 8. Runs -/

/-- What happens to the table: `accept` returns a descriptor, with the outcomes of `realloc`,
`calloc` and `kevent` behind it, or a client is removed. -/
inductive TableEvent
  | accept (clientFd : Nat) (grown calloced armed : Bool)
  | remove (clientFd : Nat)
  deriving DecidableEq, Repr

namespace ConnTable

def step (fuel : Nat) (t : ConnTable) : TableEvent → Option ConnTable
  | .accept clientFd grown calloced armed => t.acceptClient fuel clientFd grown calloced armed
  | .remove clientFd => t.removeClient clientFd

def run (fuel : Nat) : List TableEvent → ConnTable → Option ConnTable
  | [], t => some t
  | ev :: evs, t => (step fuel t ev).bind (run fuel evs)

/-- `accept` returns no open descriptor, and none from 10 * 2^27 on. -/
def Possible (t : ConnTable) : TableEvent → Prop
  | .accept clientFd _ _ _ => clientFd ∉ t.opened ∧ clientFd < 10 * 2 ^ 27
  | .remove _ => True

def AllPossible (fuel : Nat) : List TableEvent → ConnTable → Prop
  | [], _ => True
  | ev :: evs, t => Possible t ev ∧ ∀ t' ∈ step fuel t ev, AllPossible fuel evs t'

instance (t : ConnTable) (ev : TableEvent) : Decidable (Possible t ev) :=
  match ev with
  | .accept clientFd _ _ _ =>
    inferInstanceAs (Decidable (clientFd ∉ t.opened ∧ clientFd < 10 * 2 ^ 27))
  | .remove _ => isTrue trivial

instance AllPossible.decidable (fuel : Nat) : ∀ evs t, Decidable (AllPossible fuel evs t)
  | [], _ => isTrue trivial
  | ev :: evs, t =>
    have := AllPossible.decidable fuel evs
    inferInstanceAs (Decidable (Possible t ev ∧ ∀ t' ∈ step fuel t ev, AllPossible fuel evs t'))

section Runs

variable {t : ConnTable} {fuel : Nat}

theorem step_sound (h : Sound t) (hfuel : 27 < fuel) {ev : TableEvent} (hev : Possible t ev) :
    ∃ t', step fuel t ev = some t' ∧ Sound t' := by
  cases ev with
  | accept clientFd grown calloced armed =>
    obtain ⟨t', hrun, h', -⟩ :=
      acceptClient_accepted h hev.1 hev.2 hfuel grown calloced armed
    exact ⟨t', hrun, h'⟩
  | remove clientFd =>
    obtain ⟨t', hrun, h', -⟩ := removeClient_removed h clientFd
    exact ⟨t', hrun, h'⟩

theorem run_sound (h : Sound t) (hfuel : 27 < fuel) {evs : List TableEvent}
    (hevs : AllPossible fuel evs t) : ∃ t', run fuel evs t = some t' ∧ Sound t' := by
  induction evs generalizing t with
  | nil => exact ⟨t, rfl, h⟩
  | cons ev evs ih =>
    obtain ⟨t1, hstep, h1⟩ := step_sound h hfuel hevs.1
    obtain ⟨t', hrun, h'⟩ := ih h1 (hevs.2 t1 hstep)
    exact ⟨t', by rw [run, hstep, Option.bind_some, hrun], h'⟩

/-- **The connection table.**  In every run no access goes outside the table and no `int`
overflows; a slot is `NULL` or holds the connection with its number; a descriptor is below
`curr_cap` when it is registered; and what comes next from `accept` does what `Accepted` says,
whatever fails on the way. -/
theorem connection_table (hfuel : 27 < fuel) {opened : List Nat} {evs : List TableEvent}
    (hevs : AllPossible fuel evs (.init opened)) :
    ∃ t, run fuel evs (.init opened) = some t ∧
      (∀ i : Nat, i < t.currCap →
        t.conns[i]? = some .null ∨ ∃ c, t.conns[i]? = some (.conn c) ∧ c.clientFd = i) ∧
      (∀ (fd : Nat) (cap : Int), .registerClient fd cap ∈ t.log → fd < cap) ∧
      ∀ (clientFd : Nat) (grown calloced armed : Bool), clientFd ∉ t.opened →
        clientFd < 10 * 2 ^ 27 →
        ∃ t', t.acceptClient fuel clientFd grown calloced armed = some t' ∧
          Accepted t clientFd grown calloced armed t' := by
  obtain ⟨t, hrun, h⟩ := run_sound (sound_init opened) hfuel hevs
  refine ⟨t, hrun, ?_, h.registered, ?_⟩
  · intro i hi
    have hlen := h.length
    have hcell := List.getElem?_eq_getElem (l := t.conns) (i := i) (by omega)
    rcases h.cells i _ hcell with hnull | ⟨c, hc, hown, -⟩
    · exact .inl (hcell.trans (congrArg some hnull))
    · exact .inr ⟨c, hcell.trans (congrArg some hc), hown⟩
  · intro clientFd grown calloced armed hopen hfd
    obtain ⟨t', hturn, -, hok⟩ := acceptClient_accepted h hopen hfd hfuel grown calloced armed
    exact ⟨t', hturn, hok⟩

/-- A client in a table that has the room, one the table cannot grow for, one that `kevent` fails
for when it has grown, one that is registered, and the first leaves. -/
theorem connection_table_grown :
    ∃ t, run 28 [.accept 5 true true true, .accept 12 false true true, .accept 12 true true false,
        .accept 25 true true true, .remove 5] (.init [0, 1, 2, 3, 4]) = some t ∧
      (∀ i : Nat, i < t.currCap →
        t.conns[i]? = some .null ∨ ∃ c, t.conns[i]? = some (.conn c) ∧ c.clientFd = i) ∧
      (∀ (fd : Nat) (cap : Int), .registerClient fd cap ∈ t.log → fd < cap) ∧
      ∀ (clientFd : Nat) (grown calloced armed : Bool), clientFd ∉ t.opened →
        clientFd < 10 * 2 ^ 27 →
        ∃ t', t.acceptClient 28 clientFd grown calloced armed = some t' ∧
          Accepted t clientFd grown calloced armed t' :=
  connection_table (by decide) (by decide)

end Runs

end ConnTable

end SocketExchange
