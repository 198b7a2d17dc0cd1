import Atlas.Execution.Orders
import Atlas.Lib.PyText

/-!
# The Python order model and the Rust check

* `PythonOrder.validate` : the constraints of the `Order` model of `atlas_agent.models`, with the errors pydantic lists;
  how pydantic reads a `datetime` is a parameter;
* `MeetsContract` : the rules of the order contract;
* `Agree` : both checks answer the same, and accept only what the contract allows; `orders_agree_iff` : when they do.
-/

namespace Atlas.Execution

/-! ## Python -/

namespace PythonOrder

inductive FieldError
  | stringTooShort
  | greaterThan
  | datetime (text : String)
  | valueError (text : String)
  deriving DecidableEq, Repr

/-- A text with `min_length=1`, and `validate_non_empty` behind it. -/
def checkText (field s : String) : List (String × FieldError) :=
  if s = "" then [(field, .stringTooShort)]
  else if PyText.strip PyText.isSpace s.toList = [] then
    [(field, .valueError "field must not be empty or whitespace-only")]
  else []

/-- A number with `gt=0`. -/
def checkPositive (field : String) (x : F64) : List (String × FieldError) :=
  if F64.zero.lt x then [] else [(field, .greaterThan)]

def checkOptional (field : String) (x : Option F64) : List (String × FieldError) := x.elim [] (checkPositive field)

variable {δ : Type} (datetime : String → Except String δ)

/-- A `datetime`, read by pydantic's `datetime`. -/
def checkDatetime (field s : String) : List (String × FieldError) :=
  match datetime s with
  | .ok _ => []
  | .error text => [(field, .datetime text)]

def validate (order : Order) : Except (List (String × FieldError)) Unit :=
  let errors :=
    checkText "symbol" order.symbol ++ checkPositive "quantity" order.quantity ++
      checkDatetime datetime "timestamp" order.timestamp ++ checkText "agent_id" order.agentId ++
      checkOptional "price" order.price ++ checkOptional "stop_price" order.stopPrice
  if errors = [] then .ok () else .error errors

end PythonOrder

/-! ## The contract -/

def OrderType.needsPrice : OrderType → Prop
  | .limit => True
  | .stopLimit => True
  | _ => False

instance : DecidablePred OrderType.needsPrice := fun t => by
  cases t
  · exact isFalse id
  · exact isTrue trivial
  · exact isTrue trivial
  · exact isFalse id

def IsPositive (x : F64) : Prop := F64.zero.lt x = true

/-- The order contract; `price_required_for_limit_orders` is the last rule. -/
structure MeetsContract (order : Order) : Prop where
  symbol : order.symbol ≠ ""
  agentId : order.agentId ≠ ""
  quantity : IsPositive order.quantity
  price : ∀ price ∈ order.price, IsPositive price
  stopPrice : ∀ price ∈ order.stopPrice, IsPositive price
  priceRequired : order.orderType.needsPrice → order.price ≠ none

/-- The amounts of the order are numbers. -/
structure Numeric (order : Order) : Prop where
  quantity : order.quantity.IsFinite
  price : ∀ price ∈ order.price, price.IsFinite
  stopPrice : ∀ price ∈ order.stopPrice, price.IsFinite

/-- The symbol and the agent have a character that is no white space. -/
def NotBlank (order : Order) : Prop :=
  (∃ c ∈ order.symbol.toList, PyText.isSpace c = false) ∧ ∃ c ∈ order.agentId.toList, PyText.isSpace c = false

def PricesPositive (order : Order) : Prop :=
  (∀ price ∈ order.price, IsPositive price) ∧ ∀ price ∈ order.stopPrice, IsPositive price

/-- The timestamp is one that pydantic reads. -/
def Dated {δ : Type} (datetime : String → Except String δ) (order : Order) : Prop :=
  ∃ instant, datetime order.timestamp = .ok instant

/-- A limit order has a positive price. -/
def LimitPriced (order : Order) : Prop := order.orderType.needsPrice → ∃ price ∈ order.price, IsPositive price

/-! ## What the checks accept -/

theorem verdict_ok_iff {ε : Type} (errors : List ε) [Decidable (errors = [])] :
    (if errors = [] then .ok () else .error errors : Except (List ε) Unit) = .ok () ↔ errors = [] := by
  split_ifs with h
  · exact iff_of_true rfl h
  · exact iff_of_false (fun heq => nomatch heq) h

theorem checkText_eq_nil_iff {field s : String} :
    PythonOrder.checkText field s = [] ↔ s ≠ "" ∧ ∃ c ∈ s.toList, PyText.isSpace c = false := by
  have hblank : PyText.strip PyText.isSpace s.toList = [] ↔ ¬ ∃ c ∈ s.toList, PyText.isSpace c = false := by
    rw [PyText.strip_eq_nil]
    simp
  unfold PythonOrder.checkText
  split_ifs with hempty hspace
  · simp [hempty]
  · simpa using fun _ => by simpa using hblank.mp hspace
  · exact iff_of_true rfl ⟨hempty, by_contra fun hno => hspace (hblank.mpr hno)⟩

theorem checkPositive_eq_nil_iff {field : String} {x : F64} :
    PythonOrder.checkPositive field x = [] ↔ IsPositive x := by
  unfold PythonOrder.checkPositive IsPositive
  split_ifs with h <;> simp [h]

theorem checkOptional_eq_nil_iff {field : String} {x : Option F64} :
    PythonOrder.checkOptional field x = [] ↔ ∀ price ∈ x, IsPositive price := by
  cases x with
  | none => simp [PythonOrder.checkOptional]
  | some price => simp [PythonOrder.checkOptional, checkPositive_eq_nil_iff]

section
variable {δ : Type} {datetime : String → Except String δ}

theorem checkDatetime_eq_nil_iff {field s : String} :
    PythonOrder.checkDatetime datetime field s = [] ↔ ∃ instant, datetime s = .ok instant := by
  unfold PythonOrder.checkDatetime
  split
  case h_1 instant h => exact iff_of_true rfl ⟨instant, h⟩
  case h_2 text h =>
    refine iff_of_false (List.cons_ne_nil _ _) ?_
    rintro ⟨instant, hok⟩
    cases h.symm.trans hok

theorem pythonOrder_ok_iff (order : Order) :
    PythonOrder.validate datetime order = .ok () ↔
      (order.symbol ≠ "" ∧ order.agentId ≠ "" ∧ IsPositive order.quantity) ∧
        NotBlank order ∧ PricesPositive order ∧ Dated datetime order := by
  rw [PythonOrder.validate, verdict_ok_iff, List.append_eq_nil_iff, List.append_eq_nil_iff, List.append_eq_nil_iff,
    List.append_eq_nil_iff, List.append_eq_nil_iff, checkText_eq_nil_iff, checkText_eq_nil_iff,
    checkPositive_eq_nil_iff, checkDatetime_eq_nil_iff, checkOptional_eq_nil_iff, checkOptional_eq_nil_iff]
  unfold NotBlank PricesPositive Dated
  tauto

end

theorem order_ok_iff {order : Order} (h : Numeric order) :
    order.validate = .ok () ↔ (order.symbol ≠ "" ∧ order.agentId ≠ "" ∧ IsPositive order.quantity) ∧
      LimitPriced order := by
  have hzero : F64.zero.IsFinite := trivial
  have hquantity := F64.lt_iff_not_le hzero h.quantity
  have hnone : order.price = none ∨
      ∃ price, order.price = some price ∧ (price.le .zero = true ↔ ¬ IsPositive price) := by
    cases hp : order.price with
    | none => exact Or.inl rfl
    | some price => exact Or.inr ⟨price, rfl, by rw [IsPositive, F64.lt_iff_not_le hzero (h.price price hp), not_not]⟩
  have htext : ∀ s text : String, (if s = "" then [text] else []) = [] ↔ s ≠ "" := by
    intro s text
    split_ifs with hs <;> simp [hs]
  have hamount : (if order.quantity.le .zero = true then ["quantity must be > 0"] else []) = [] ↔
      IsPositive order.quantity := by
    rw [IsPositive, hquantity]
    split_ifs with hle <;> simp [hle]
  rw [Order.validate, verdict_ok_iff, List.append_eq_nil_iff, List.append_eq_nil_iff, List.append_eq_nil_iff, htext,
    htext, hamount]
  refine Iff.trans (and_congr_right' (c := LimitPriced order) ?_) (by tauto)
  unfold LimitPriced
  rcases hnone with hp | ⟨price, hp, hle⟩
  · cases order.orderType <;> simp [hp, OrderType.needsPrice]
  · cases order.orderType <;> simp [hp, OrderType.needsPrice, hle]

/-! ## Agreement -/

section
variable {δ : Type} (datetime : String → Except String δ)

/-- Both checks give one answer, and what they accept meets the contract. -/
def Agree (order : Order) : Prop :=
  (PythonOrder.validate datetime order = .ok () ↔ order.validate = .ok ()) ∧
    (PythonOrder.validate datetime order = .ok () → MeetsContract order) ∧
    (order.validate = .ok () → MeetsContract order)

/-- **The two order checks.** An order with a symbol, an agent and a positive quantity is judged alike just when
Python's rules on blanks, prices and the timestamp and Rust's on the price of limit orders come to the same. -/
theorem orders_agree_iff {order : Order} (h : Numeric order) :
    Agree datetime order ↔ (order.symbol ≠ "" → order.agentId ≠ "" → IsPositive order.quantity →
      (NotBlank order ∧ PricesPositive order ∧ Dated datetime order ↔ LimitPriced order)) := by
  unfold Agree
  rw [pythonOrder_ok_iff, order_ok_iff h]
  constructor
  · rintro ⟨hsame, -, -⟩ hsymbol hagent hquantity
    have hbase := And.intro hsymbol (And.intro hagent hquantity)
    rwa [and_iff_right hbase, and_iff_right hbase] at hsame
  · intro hsame
    have hboth : ∀ hbase : order.symbol ≠ "" ∧ order.agentId ≠ "" ∧ IsPositive order.quantity,
        (NotBlank order ∧ PricesPositive order ∧ Dated datetime order ↔ LimitPriced order) :=
      fun hbase => hsame hbase.1 hbase.2.1 hbase.2.2
    have hmeets : ∀ hbase : order.symbol ≠ "" ∧ order.agentId ≠ "" ∧ IsPositive order.quantity,
        PricesPositive order → LimitPriced order → MeetsContract order := by
      intro hbase hprices hlimit
      refine ⟨hbase.1, hbase.2.1, hbase.2.2, hprices.1, hprices.2, fun hneeds hnone => ?_⟩
      obtain ⟨price, hprice, -⟩ := hlimit hneeds
      rw [hnone] at hprice
      cases hprice
    refine ⟨and_congr_right hboth, ?_, ?_⟩
    · rintro ⟨hbase, hblank, hprices, hdated⟩
      exact hmeets hbase hprices ((hboth hbase).mp ⟨hblank, hprices, hdated⟩)
    · rintro ⟨hbase, hlimit⟩
      exact hmeets hbase ((hboth hbase).mpr hlimit).2.1 hlimit

end

/-! ### A limit order -/

def limitOrder (price : Option F64) : Order where
  orderId := 1
  symbol := "BTCUSDT"
  side := .buy
  quantity := .ofInt 1 F64.one_exact
  orderType := .limit
  price := price
  stopPrice := none
  timeInForce := none
  timestamp := "2026-08-30T12:00:00+00:00"
  agentId := "agent-1"

theorem isPositive_ofInt {n : ℤ} (h : |(n : ℚ)| < 2 ^ 53) (hn : 0 < n) : IsPositive (.ofInt n h) := by
  have hq : (0 : ℚ) < n := by exact_mod_cast hn
  simpa [IsPositive, F64.lt, F64.zero, F64.ofInt, F64.place] using hq

theorem numeric_limitOrder {price : Option F64} (h : ∀ p ∈ price, p.IsFinite) : Numeric (limitOrder price) :=
  ⟨trivial, h, fun _ hp => nomatch hp⟩

theorem notBlank_limitOrder (price : Option F64) : NotBlank (limitOrder price) :=
  ⟨⟨'B', by simp [limitOrder], by decide⟩, 'a', by simp [limitOrder], by decide⟩

/-- On the timestamp of the limit order this is pydantic's reading, as the instant in milliseconds. -/
def noon (s : String) : Except String Nat :=
  if s = "2026-08-30T12:00:00+00:00" then .ok 1788091200000 else .error "invalid character in year"

theorem dated_limitOrder (price : Option F64) : Dated noon (limitOrder price) := ⟨_, if_pos rfl⟩

theorem orders_agree_priced : Agree noon (limitOrder (some (.ofInt 100 F64.hundred_exact))) := by
  have hprice : IsPositive (.ofInt 100 F64.hundred_exact) := isPositive_ofInt _ (by decide)
  refine (orders_agree_iff noon (numeric_limitOrder fun p hp => ?_)).mpr fun _ _ _ => iff_of_true ?_ ?_
  · obtain rfl := Option.some.inj hp
    trivial
  · refine ⟨notBlank_limitOrder _, ⟨fun p hp => ?_, fun _ hp => nomatch hp⟩, dated_limitOrder _⟩
    obtain rfl := Option.some.inj hp
    exact hprice
  · exact fun _ => ⟨_, rfl, hprice⟩

/-- Python takes a limit order without a price. -/
theorem orders_not_agree_unpriced : Numeric (limitOrder none) ∧ ¬ Agree noon (limitOrder none) := by
  have hnumeric := @numeric_limitOrder none fun _ hp => nomatch hp
  refine ⟨hnumeric, fun h => ?_⟩
  have hbase : (limitOrder none).symbol ≠ "" ∧ (limitOrder none).agentId ≠ "" ∧ IsPositive (limitOrder none).quantity :=
    ⟨by decide, by decide, isPositive_ofInt (by norm_num) (by decide)⟩
  have hpython : PythonOrder.validate noon (limitOrder none) = .ok () := (pythonOrder_ok_iff _).mpr
    ⟨hbase, notBlank_limitOrder _, ⟨fun _ hp => (nomatch hp), fun _ hp => (nomatch hp)⟩, dated_limitOrder _⟩
  exact (h.2.1 hpython).priceRequired trivial rfl

end Atlas.Execution
