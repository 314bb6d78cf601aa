/-
# Which lines are orders

A `BUY` or `SELL` line of the protocol is four words: the command, an instrument and two
decimal integers in the range of an order.  `validOrder` is that reading, and `OrderLineOk`
says that the server acts on it: a valid line is accepted with exactly its values, every other
line is answered with an error and changes no order.

The server reads with `sscanf`, which takes prefixes.  `Plain` is what the text it converted
must look like for the two readings to agree, and `order_lines` says that the server acts on
the protocol's reading exactly of lines it would not accept, of plain ones, and, when there is
no memory for an order, of the others.
-/
import SocketExchange.Routing

namespace SocketExchange

open CText

/-! ## 1. The protocol's reading -/

structure OrderValues where
  side : OrderSide
  instrument : Instrument
  quantity : Int
  price : Int
  deriving DecidableEq, Repr

/-- `BUY` or `SELL` -/
def sideOf (cmd : Bytes) : Option OrderSide :=
  if cmd = lit "BUY" then some .buy
  else if cmd = lit "SELL" then some .sell
  else none

/-- A quantity or a price of the protocol. -/
def InOrderRange (n : Int) : Prop := 1 ≤ n ∧ n ≤ 2147483647

instance (n : Int) : Decidable (InOrderRange n) := by
  unfold InOrderRange; infer_instance

/-- The order a line is, by the protocol. -/
def validOrder (line : Bytes) : Option OrderValues :=
  match words line with
  | [cmd, instrument, quantity, price] =>
    match sideOf cmd, instrumentOf instrument, intToken quantity, intToken price with
    | some side, some inst, some q, some p =>
      if InOrderRange q ∧ InOrderRange p then
        some { side := side, instrument := inst, quantity := q, price := p }
      else none
    | _, _, _, _ => none
  | _ => none

/-- The line is answered with an error and nothing else happens. -/
def AnsweredWithError (line : Bytes) (self : Nat) (w : World) : Prop :=
  (processLine line self w).1.exchange = w.exchange ∧
    ∃ reason h, (processLine line self w).1.trace
        = w.trace ++ [.line (w.conn self).serial line, .handed h] ∧
      h.receiver = (w.conn self).serial ∧ h.msg = snprintf 64 (lit "ERROR " ++ reason ++ lit "\n")

/-- The line gets an order with these values accepted. -/
def AcceptedAs (o : OrderValues) (line : Bytes) (self : Nat) (w : World) : Prop :=
  let ord := w.exchange.newOrder o.side o.instrument o.quantity o.price (w.conn self).clientFd
    (w.conn self).serial
  (processLine line self w).1.exchange = (w.exchange.takeId ord).enter ord (alloc w.heap).2

/-- **The server acts on the protocol's reading of the line.** -/
def OrderLineOk (line : Bytes) (self : Nat) (w : World) : Prop :=
  match validOrder line with
  | some o => AcceptedAs o line self w
  | none => AnsweredWithError line self w

/-! ## 2. The server's reading -/

/-- The text of four conversions: the two words, and each number as it is written with what
follows it. -/
structure OrderText where
  cmd : Bytes
  arg : Bytes
  quantity : Int
  afterQuantity : Bytes
  price : Int
  afterPrice : Bytes
  deriving DecidableEq, Repr

/-- What `sscanf` converts, when it converts all four. -/
def orderText (line : Bytes) : Option OrderText :=
  match scanWord maxTokenLen line with
  | none => none
  | some (cmd, rest) =>
  match scanWord maxTokenLen rest with
  | none => none
  | some (arg, rest) =>
  match numeral rest with
  | none => none
  | some (quantity, afterQuantity) =>
  match numeral afterQuantity with
  | none => none
  | some (price, afterPrice) =>
    some { cmd := cmd, arg := arg, quantity := quantity, afterQuantity := afterQuantity
           price := price, afterPrice := afterPrice }

/-- The checks of `placeOrder`, on the numbers as they are stored in an `int`. -/
def OrderText.Passes (x : OrderText) : Prop :=
  instrumentOf x.arg ≠ none ∧ 0 < narrow32 (saturate64 x.quantity) ∧
    0 < narrow32 (saturate64 x.price)

/-- **The text is plainly written**: the line has no NUL, both numbers are in range as they
are written, the quantity ends where a word ends, and nothing but white space is behind the
price. -/
def OrderText.Plain (line : Bytes) (x : OrderText) : Prop :=
  0 ∉ line ∧ InOrderRange x.quantity ∧ InOrderRange x.price ∧ Blank x.afterQuantity ∧
    skipSpace x.afterPrice = []

instance (x : OrderText) : Decidable x.Passes := by
  unfold OrderText.Passes; infer_instance

instance (line : Bytes) (x : OrderText) : Decidable (x.Plain line) := by
  unfold OrderText.Plain; infer_instance

/-- `scanLine` reads the same text. -/
theorem scanLine_orderText (line : Bytes) :
    match orderText line with
    | some x => scanLine line = { matched := 4, cmd := x.cmd, arg := x.arg
                                  quantity := narrow32 (saturate64 x.quantity)
                                  price := narrow32 (saturate64 x.price) }
    | none => (scanLine line).matched ≠ 4 := by
  unfold orderText scanLine scanInt
  cases scanWord maxTokenLen line with
  | none => simp
  | some r1 =>
    dsimp only
    cases scanWord maxTokenLen r1.2 with
    | none => simp
    | some r2 =>
      dsimp only
      cases numeral r2.2 with
      | none => simp
      | some r3 =>
        dsimp only [Option.map_some]
        cases numeral r3.2 with
        | none => simp
        | some r4 => rfl

theorem scanLine_cmd {line cmd rest : Bytes} (h : scanWord maxTokenLen line = some (cmd, rest)) :
    (scanLine line).cmd = cmd ∧ 1 ≤ (scanLine line).matched ∧
      ∀ x ∈ orderText line, x.cmd = cmd := by
  unfold scanLine orderText
  rw [h]
  dsimp only
  cases scanWord maxTokenLen rest with
  | none => exact ⟨rfl, le_refl _, by simp⟩
  | some r2 =>
    dsimp only
    unfold scanInt
    cases numeral r2.2 with
    | none => exact ⟨rfl, (by decide : 1 ≤ 2), by simp⟩
    | some r3 =>
      dsimp only [Option.map_some]
      cases numeral r3.2 with
      | none => exact ⟨rfl, (by decide : 1 ≤ 3), by simp⟩
      | some r4 => exact ⟨rfl, (by decide : 1 ≤ 4), by simp⟩

/-! ## 3. Where the two readings agree -/

/-- A valid line has no NUL in it: every byte of it is white space or in one of four words. -/
theorem zero_not_mem_valid {line : Bytes} {o : OrderValues} (h : validOrder line = some o) :
    0 ∉ line := by
  intro hb
  obtain ⟨w, hw, h0⟩ := mem_words hb (by decide)
  unfold validOrder at h
  split at h
  · rename_i cmd instrument quantity price hwords
    split at h
    · rename_i side inst q p hside hinst hq hp
      rw [hwords] at hw
      simp only [List.mem_cons, List.not_mem_nil, or_false] at hw
      have hcmd : 0 ∉ cmd := by
        unfold sideOf at hside
        split at hside
        · rename_i hc
          rw [hc]
          decide
        · split at hside
          · rename_i hc
            rw [hc]
            decide
          · cases hside
      have harg : 0 ∉ instrument := by
        unfold instrumentOf at hinst
        split at hinst
        · rename_i hc
          rw [hc]
          decide
        · split at hinst
          · rename_i hc
            rw [hc]
            decide
          · cases hinst
      rcases hw with rfl | rfl | rfl | rfl
      · exact hcmd h0
      · exact harg h0
      · exact ((intToken_bytes hq).2 0 h0).2 rfl
      · exact ((intToken_bytes hp).2 0 h0).2 rfl
    · cases h
  · cases h

/-- A valid line is converted to its own values. -/
theorem orderText_of_valid {line : Bytes} (hlen : line.length ≤ maxTokenLen) {o : OrderValues}
    (h : validOrder line = some o) :
    ∃ x, orderText line = some x ∧ x.Plain line ∧ sideOf x.cmd = some o.side ∧
      instrumentOf x.arg = some o.instrument ∧ x.quantity = o.quantity ∧ x.price = o.price := by
  have hzero := zero_not_mem_valid h
  have hpos : 0 < maxTokenLen := by decide
  unfold validOrder at h
  split at h
  · rename_i cmd instrument quantity price hwords
    split at h
    · rename_i side inst q p hside hinst hq hp
      split at h
      · rename_i hrange
        cases h
        obtain ⟨r1, h1, hw1, -, hl1⟩ := scanWord_of_words hpos hlen hwords
        obtain ⟨r2, h2, hw2, -, -⟩ := scanWord_of_words hpos (hl1.trans hlen) hw1
        obtain ⟨r3, h3, hw3, hb3⟩ := numeral_of_words hw2 hq
        obtain ⟨r4, h4, hw4, -⟩ := numeral_of_words hw3 hp
        refine ⟨{ cmd := cmd, arg := instrument, quantity := q, afterQuantity := r3, price := p
                  afterPrice := r4 }, ?_, ?_, hside, hinst, rfl, rfl⟩
        · unfold orderText
          rw [h1]
          dsimp only
          rw [h2]
          dsimp only
          rw [h3]
          dsimp only
          rw [h4]
        · exact ⟨hzero, hrange.1, hrange.2, hb3, words_eq_nil.mp hw4⟩
      · cases h
    · cases h
  · cases h

/-- A plainly written text is a valid line. -/
theorem validOrder_of_plain {line : Bytes} (hlen : line.length ≤ maxTokenLen) {x : OrderText}
    (h : orderText line = some x) (hx : x.Plain line) {side : OrderSide} {inst : Instrument}
    (hside : sideOf x.cmd = some side) (hinst : instrumentOf x.arg = some inst) :
    validOrder line = some { side := side, instrument := inst, quantity := x.quantity
                             price := x.price } := by
  obtain ⟨-, hq, hp, hb, hend⟩ := hx
  have hpos : 0 < maxTokenLen := by decide
  unfold orderText at h
  split at h
  · cases h
  · rename_i cmd r1 h1
    obtain ⟨hw1, -⟩ := words_of_scanWord hlen h1
    obtain ⟨r1', h1', -, -, hl1⟩ := scanWord_of_words hpos hlen hw1
    cases h1.symm.trans h1'
    split at h
    · cases h
    · rename_i arg r2 h2
      obtain ⟨hw2, -⟩ := words_of_scanWord (hl1.trans hlen) h2
      split at h
      · cases h
      · rename_i quantity r3 h3
        split at h
        · cases h
        · rename_i price r4 h4
          cases h
          have hb4 : Blank r4 := by
            intro b hbr
            by_contra hns
            have hne : skipSpace r4 ≠ [] := by
              cases r4 with
              | nil => cases hbr
              | cons a r4 =>
                cases hbr
                unfold skipSpace
                rw [List.dropWhile_cons, if_neg hns]
                exact List.cons_ne_nil _ _
            exact hne hend
          obtain ⟨t, hw3, ht⟩ := words_of_numeral h3 hb
          obtain ⟨t', hw4, ht'⟩ := words_of_numeral h4 hb4
          have hall : words line = [cmd, arg, t, t'] := by
            rw [hw1, hw2, hw3, hw4, words_eq_nil.mpr (show skipSpace r4 = [] from hend)]
          unfold validOrder
          rw [hall]
          dsimp only at hside hinst hq hp ⊢
          rw [hside, hinst, ht, ht']
          exact if_pos ⟨hq, hp⟩

/-- A command of an order. -/
def IsOrderCmd (cmd : Bytes) : Prop := cmd = lit "BUY" ∨ cmd = lit "SELL"

/-- The first word of a line is the first conversion, wherever the line's C string ends. -/
theorem scanWord_cstr {line cmd : Bytes} {ws : List Bytes} (hlen : line.length ≤ maxTokenLen)
    (h : words line = cmd :: ws) (hcmd : IsOrderCmd cmd) :
    ∃ rest, scanWord maxTokenLen (cstr line) = some (cmd, rest) := by
  have h0 : 0 ∉ cmd := by
    rcases hcmd with rfl | rfl <;> decide
  obtain ⟨r, hr⟩ := words_cstr h h0
  have hle : (cstr line).length ≤ line.length := (List.takeWhile_prefix _).length_le
  obtain ⟨rest, hrest, -⟩ := scanWord_of_words (by decide) (hle.trans hlen) hr
  exact ⟨rest, hrest⟩

/-! ## 4. What the server does -/

theorem answered_of_replyError {line : Bytes} {self : Nat} {w : World} (reason : Bytes)
    (heap : List Bool)
    (h : processLine line self w = replyError self reason
      { w.note (.line (w.conn self).serial line) with heap := heap }) :
    AnsweredWithError line self w := by
  unfold AnsweredWithError
  rw [h]
  exact ⟨rfl, reason, _, List.append_assoc _ _ _, rfl, rfl⟩

/-- A line the code accepts is acted on with the numbers as they are stored. -/
theorem acceptedAs_placeOrder {line : Bytes} {self : Nat} {w : World} (o : OrderValues)
    {instrument : Bytes} (hinst : instrumentOf instrument = some o.instrument)
    (hpos : 0 < o.quantity ∧ 0 < o.price) (halloc : (alloc w.heap).1 = true)
    (h : processLine line self w = placeOrder o.side instrument o.quantity o.price self
      (w.note (.line (w.conn self).serial line))) : AcceptedAs o line self w := by
  unfold AcceptedAs
  rw [h]
  unfold placeOrder
  rw [hinst]
  dsimp only
  rw [if_neg (by omega), if_neg (fun h => Bool.false_ne_true (h.symm.trans halloc))]
  exact acceptOrder_exchange _ _ _

/-- A `BUY` or `SELL` line of a client that is logged in goes to `placeOrder` when all four
conversions succeed, and is an unknown command otherwise. -/
theorem processLine_order {line : Bytes} {self : Nat} {w : World} {cmd : Bytes}
    {ws : List Bytes} (hlen : line.length ≤ maxTokenLen) (hin : (w.conn self).loggedIn = true)
    (hwords : words line = cmd :: ws) {side : OrderSide} (hside : sideOf cmd = some side) :
    match orderText (cstr line) with
    | some x => x.cmd = cmd ∧ processLine line self w = placeOrder side x.arg
        (narrow32 (saturate64 x.quantity)) (narrow32 (saturate64 x.price)) self
        (w.note (.line (w.conn self).serial line))
    | none => processLine line self w = replyError self (lit "Unknown command")
        (w.note (.line (w.conn self).serial line)) := by
  have hcmd : cmd = lit "BUY" ∧ side = .buy ∨ cmd = lit "SELL" ∧ side = .sell := by
    unfold sideOf at hside
    split at hside
    · rename_i h
      exact .inl ⟨h, (Option.some.inj hside).symm⟩
    · split at hside
      · rename_i h
        exact .inr ⟨h, (Option.some.inj hside).symm⟩
      · cases hside
  obtain ⟨rest, hrest⟩ := scanWord_cstr hlen hwords (hcmd.imp And.left And.left)
  obtain ⟨hc, hm, hx⟩ := scanLine_cmd hrest
  have hscan := scanLine_orderText (cstr line)
  have hproc : processLine line self w = dispatchCommand (scanLine (cstr line)) self
      (w.note (.line (w.conn self).serial line)) := by
    unfold processLine
    exact if_neg (by omega)
  have hshort : ¬ (scanLine (cstr line)).cmd.length > maxCmdLen := by
    rw [hc]
    rcases hcmd with ⟨rfl, -⟩ | ⟨rfl, -⟩ <;> decide
  have hno : ∀ t : Bytes, t = lit "LOGIN" ∨ t = lit "SUBSCRIBE" ∨ t = lit "QUIT"
      ∨ t = lit "UNSUBSCRIBE" ∨ t = lit "CANCEL" → (scanLine (cstr line)).cmd ≠ t := by
    rw [hc]
    rcases hcmd with ⟨rfl, -⟩ | ⟨rfl, -⟩ <;> rintro t (rfl | rfl | rfl | rfl | rfl) <;> decide
  have hin' : ¬ ((w.note (.line (w.conn self).serial line)).conn self).loggedIn = false := by
    rw [conn_note, hin]
    decide
  have hd : dispatchCommand (scanLine (cstr line)) self
      (w.note (.line (w.conn self).serial line))
      = if (scanLine (cstr line)).matched = 4 then
          placeOrder side (scanLine (cstr line)).arg (scanLine (cstr line)).quantity
            (scanLine (cstr line)).price self (w.note (.line (w.conn self).serial line))
        else replyError self (lit "Unknown command")
          (w.note (.line (w.conn self).serial line)) := by
    unfold dispatchCommand
    rw [if_neg hshort, if_neg (fun h => hno _ (.inl rfl) h.1),
      if_neg (fun h => hno _ (.inr (.inl rfl)) h.1),
      if_neg (fun h => hno _ (.inr (.inr (.inl rfl))) h.1),
      if_neg (fun h => hno _ (.inr (.inr (.inr (.inl rfl)))) h.1), if_neg hin']
    by_cases h4 : (scanLine (cstr line)).matched = 4
    · rw [if_pos h4]
      rcases hcmd with ⟨rfl, rfl⟩ | ⟨rfl, rfl⟩
      · exact if_pos ⟨hc, h4⟩
      · rw [if_neg fun h => absurd (hc.symm.trans h.1) (by decide)]
        exact if_pos ⟨hc, h4⟩
    · rw [if_neg h4, if_neg (fun h => h4 h.2), if_neg (fun h => h4 h.2)]
      exact if_neg fun h => hno _ (.inr (.inr (.inr (.inr rfl)))) h.1
  rw [hproc, hd]
  cases hox : orderText (cstr line) with
  | none =>
    rw [hox] at hscan
    exact if_neg hscan
  | some x =>
    rw [hox] at hscan hx
    dsimp only at hscan ⊢
    exact ⟨hx x rfl, by rw [hscan]; exact if_pos rfl⟩

/-- **The condition on a line**: if the code would accept what it converts, the text is plainly
written, and there is memory for the order; or neither. -/
def ReadsPlainly (line : Bytes) (heap : List Bool) : Prop :=
  ∀ x ∈ orderText (cstr line), x.Passes → (x.Plain line ↔ (alloc heap).1 = true)

instance (line : Bytes) (heap : List Bool) : Decidable (ReadsPlainly line heap) := by
  unfold ReadsPlainly; infer_instance

/-- Numbers in range are stored as they are written. -/
theorem narrow_of_inOrderRange {n : Int} (h : InOrderRange n) : narrow32 (saturate64 n) = n :=
  narrow32_of_range (by unfold InOrderRange at h; omega) (by unfold InOrderRange at h; omega)

/-- A valid line is converted to a text that passes. -/
theorem passes_of_valid {line : Bytes} (hlen : line.length ≤ maxTokenLen) {o : OrderValues}
    (h : validOrder line = some o) :
    ∃ x, orderText (cstr line) = some x ∧ x.Plain line ∧ x.Passes ∧
      instrumentOf x.arg = some o.instrument ∧ x.quantity = o.quantity ∧ x.price = o.price := by
  obtain ⟨x, hx, hplain, -, hinst, hq, hp⟩ := orderText_of_valid hlen h
  refine ⟨x, by rwa [cstr_of_not_mem hplain.1], hplain, ⟨?_, ?_, ?_⟩, hinst, hq, hp⟩
  · rw [hinst]
    exact Option.some_ne_none _
  · have := hplain.2.1
    rw [narrow_of_inOrderRange this]
    unfold InOrderRange at this
    omega
  · have := hplain.2.2.1
    rw [narrow_of_inOrderRange this]
    unfold InOrderRange at this
    omega

/-- A text that passes is a valid line exactly if it is plainly written. -/
theorem valid_iff_plain {line : Bytes} (hlen : line.length ≤ maxTokenLen) {x : OrderText}
    (hx : orderText (cstr line) = some x) (hpass : x.Passes) {side : OrderSide}
    (hside : sideOf x.cmd = some side) : validOrder line ≠ none ↔ x.Plain line := by
  constructor
  · intro h
    obtain ⟨o, ho⟩ := Option.ne_none_iff_exists'.mp h
    obtain ⟨y, hy, hplain, -⟩ := passes_of_valid hlen ho
    cases hx.symm.trans hy
    exact hplain
  · intro hplain
    obtain ⟨inst, hinst⟩ := Option.ne_none_iff_exists'.mp hpass.1
    rw [cstr_of_not_mem hplain.1] at hx
    rw [validOrder_of_plain hlen hx hplain hside hinst]
    exact Option.some_ne_none _

/-- An accepted order is in the log. -/
theorem not_answered_of_accepted {line : Bytes} {self : Nat} {w : World} {o : OrderValues}
    (h : AcceptedAs o line self w) : ¬ AnsweredWithError line self w := by
  intro hno
  unfold AcceptedAs at h
  dsimp only at h
  rw [hno.1] at h
  have hlen := congrArg (fun x : Exchange => x.log.length) h
  unfold Exchange.enter Exchange.takeId at hlen
  simp at hlen

/-- Answered with an error, a line is acted on rightly when it is not valid. -/
theorem orderLineOk_of_answered {line : Bytes} {self : Nat} {w : World}
    (h : AnsweredWithError line self w) : OrderLineOk line self w ↔ validOrder line = none := by
  unfold OrderLineOk
  cases validOrder line with
  | none => exact ⟨fun _ => rfl, fun _ => h⟩
  | some o =>
    refine ⟨fun hacc => ?_, fun hnone => by cases hnone⟩
    exact absurd h (not_answered_of_accepted hacc)

/-- Accepted, it is acted on rightly when it is valid. -/
theorem orderLineOk_of_accepted {line : Bytes} {self : Nat} {w : World} {o : OrderValues}
    (h : AcceptedAs o line self w) (hof : ∀ o', validOrder line = some o' → o' = o) :
    OrderLineOk line self w ↔ validOrder line ≠ none := by
  cases hv : validOrder line with
  | none =>
    refine ⟨fun hok => ?_, fun hne => absurd rfl hne⟩
    have hno : AnsweredWithError line self w := by
      unfold OrderLineOk at hok
      rwa [hv] at hok
    exact absurd hno (not_answered_of_accepted h)
  | some o' =>
    refine ⟨fun _ => Option.some_ne_none _, fun _ => ?_⟩
    unfold OrderLineOk
    rw [hv, hof o' hv]
    exact h

/-- The checks of `placeOrder` refuse a text that does not pass. -/
theorem answered_of_not_passes {line : Bytes} {self : Nat} {w : World} {side : OrderSide}
    {x : OrderText} (hx : ¬ x.Passes)
    (h : processLine line self w = placeOrder side x.arg (narrow32 (saturate64 x.quantity))
      (narrow32 (saturate64 x.price)) self (w.note (.line (w.conn self).serial line))) :
    AnsweredWithError line self w := by
  cases hinst : instrumentOf x.arg with
  | none =>
    refine answered_of_replyError (lit "Invalid instrument") w.heap (h.trans ?_)
    unfold placeOrder
    rw [hinst]
    rfl
  | some inst =>
    refine answered_of_replyError (lit "Quantity and price must be positive") w.heap (h.trans ?_)
    have hbad : narrow32 (saturate64 x.quantity) ≤ 0 ∨ narrow32 (saturate64 x.price) ≤ 0 := by
      by_contra hno
      refine hx ⟨by rw [hinst]; exact Option.some_ne_none _, ?_, ?_⟩ <;> omega
    unfold placeOrder
    rw [hinst]
    dsimp only
    rw [if_pos hbad]
    rfl

/-- So does `malloc`. -/
theorem answered_of_no_memory {line : Bytes} {self : Nat} {w : World} {side : OrderSide}
    {x : OrderText} (hx : x.Passes) (halloc : (alloc w.heap).1 = false)
    (h : processLine line self w = placeOrder side x.arg (narrow32 (saturate64 x.quantity))
      (narrow32 (saturate64 x.price)) self (w.note (.line (w.conn self).serial line))) :
    AnsweredWithError line self w := by
  obtain ⟨inst, hinst⟩ := Option.ne_none_iff_exists'.mp hx.1
  refine answered_of_replyError (lit "Internal server error") (alloc w.heap).2 (h.trans ?_)
  have hpos : ¬ (narrow32 (saturate64 x.quantity) ≤ 0 ∨ narrow32 (saturate64 x.price) ≤ 0) := by
    have := hx.2
    omega
  unfold placeOrder
  rw [hinst]
  dsimp only
  rw [if_neg hpos]
  exact if_pos halloc

/-- **The server acts on the protocol's reading of a `BUY` or `SELL` line if and only if the
line reads plainly.** -/
theorem order_lines {line : Bytes} {self : Nat} {w : World} {cmd : Bytes}
    (hlen : line.length ≤ maxTokenLen) (hin : (w.conn self).loggedIn = true)
    (hcmd : (words line).head? = some cmd) (horder : IsOrderCmd cmd) :
    OrderLineOk line self w ↔ ReadsPlainly line w.heap := by
  obtain ⟨ws, hwords⟩ := List.head?_eq_some_iff.mp hcmd
  obtain ⟨side, hside⟩ : ∃ side, sideOf cmd = some side := by
    rcases horder with rfl | rfl
    · exact ⟨.buy, by decide⟩
    · exact ⟨.sell, by decide⟩
  have hproc := processLine_order hlen hin hwords hside
  have hinvalid : (∀ x, orderText (cstr line) = some x → ¬ x.Passes) → validOrder line = none := by
    intro h
    by_contra hne
    obtain ⟨o, ho⟩ := Option.ne_none_iff_exists'.mp hne
    obtain ⟨x, hx, -, hpass, -⟩ := passes_of_valid hlen ho
    exact h x hx hpass
  unfold ReadsPlainly
  cases hox : orderText (cstr line) with
  | none =>
    -- fewer than four conversions: an unknown command
    rw [hox] at hproc hinvalid
    rw [orderLineOk_of_answered (answered_of_replyError _ w.heap hproc)]
    exact ⟨fun _ x hx => (by cases hx), fun _ => hinvalid fun x hx => by cases hx⟩
  | some x =>
    rw [hox] at hproc
    obtain ⟨rfl, hproc⟩ := hproc
    have hone : (∀ y ∈ some x, y.Passes → (y.Plain line ↔ (alloc w.heap).1 = true))
        ↔ (x.Passes → (x.Plain line ↔ (alloc w.heap).1 = true)) :=
      ⟨fun h => h x rfl, fun h y hy => by cases hy; exact h⟩
    rw [hone]
    by_cases hpass : x.Passes
    · have hplain := valid_iff_plain hlen hox hpass hside
      cases halloc : (alloc w.heap).1 with
      | false =>
        rw [orderLineOk_of_answered (answered_of_no_memory hpass halloc hproc)]
        rw [← not_iff_not, ← Ne, hplain]
        exact ⟨fun h hiff => Bool.false_ne_true ((hiff hpass).mp h),
          fun h => by_contra fun hno => h fun _ => ⟨fun hp => absurd hp hno, fun hf => by cases hf⟩⟩
      | true =>
        -- the code accepts the line, with the numbers as they are stored
        obtain ⟨inst, hinst⟩ := Option.ne_none_iff_exists'.mp hpass.1
        have haccepted := acceptedAs_placeOrder
          { side := side, instrument := inst, quantity := narrow32 (saturate64 x.quantity)
            price := narrow32 (saturate64 x.price) } hinst hpass.2 halloc hproc
        rw [orderLineOk_of_accepted haccepted, hplain]
        · exact ⟨fun h _ => ⟨fun _ => rfl, fun _ => h⟩, fun h => (h hpass).mpr rfl⟩
        · intro o ho
          have hp := hplain.mp (by rw [ho]; exact Option.some_ne_none _)
          rw [cstr_of_not_mem hp.1] at hox
          have hv := validOrder_of_plain hlen hox hp hside hinst
          rw [narrow_of_inOrderRange hp.2.1, narrow_of_inOrderRange hp.2.2.1]
          exact Option.some.inj (ho.symm.trans hv)
    · rw [orderLineOk_of_answered (answered_of_not_passes hpass hproc)]
      refine ⟨fun _ h => absurd h hpass, fun _ => hinvalid fun y hy => ?_⟩
      cases hox.symm.trans hy
      exact hpass

/-- The buyer of `market`, with an order and with one that has something behind the price. -/
theorem order_lines_market :
    OrderLineOk (lit "BUY JNST 4 5") 7 (Run.run act (.init 3 []) market) ∧
      ¬ OrderLineOk (lit "BUY JNST 4 5 abc") 7 (Run.run act (.init 3 []) market) := by
  have hin : ((Run.run act (.init 3 []) market).conn 7).loggedIn = true := by decide +kernel
  have hplain : (words (lit "BUY JNST 4 5")).head? = some (lit "BUY") := by decide
  have hmore : (words (lit "BUY JNST 4 5 abc")).head? = some (lit "BUY") := by decide
  refine ⟨?_, fun h => ?_⟩
  · exact (order_lines (by decide) hin hplain (.inl rfl)).mpr (by decide +kernel)
  · exact absurd ((order_lines (by decide) hin hmore (.inl rfl)).mp h) (by decide +kernel)

/-- **An order line with something behind the price is accepted.** -/
theorem trailing_text_accepted :
    ¬ ∀ line self w, Reachable w → line.length ≤ maxTokenLen → (w.conn self).loggedIn = true →
      (∃ cmd, (words line).head? = some cmd ∧ IsOrderCmd cmd) → (alloc w.heap).1 = true →
      OrderLineOk line self w := by
  intro h
  have hok := h (lit "BUY JNST 4 5 abc") 7 (Run.run act (.init 3 []) market) ⟨3, [], market, rfl⟩
    (by decide) (by decide +kernel) ⟨lit "BUY", by decide, .inl rfl⟩ (by decide +kernel)
  have hinvalid : validOrder (lit "BUY JNST 4 5 abc") = none := by decide
  have hchanged : (processLine (lit "BUY JNST 4 5 abc") 7
      (Run.run act (.init 3 []) market)).1.exchange
      ≠ (Run.run act (.init 3 []) market).exchange := by decide +kernel
  unfold OrderLineOk at hok
  rw [hinvalid] at hok
  exact hchanged hok.1

end SocketExchange
