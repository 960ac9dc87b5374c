import Intake.Proofs.Json.Record

/-! What a document means where a value of some type is asked for, and what an object states under
a name. The readers know these meanings. -/
namespace Intake.Json.Document

inductive Word : Document → UInt64 → Prop
  | int {w : UInt64} : Word (.int w.toNat) w

/- A float may be written as an integer; zero then has no sign. -/
inductive Number : Document → Float → Prop
  | float {x : Float} : Number (.float x) x
  | whole {w : UInt64} : Number (.int w.toNat) w.toFloat
  | negative {w : UInt64} (nonzero : w ≠ 0) : Number (.int (-w.toNat)) (-w.toFloat)

inductive Quote : Document → String → Prop
  | string {s : String} : Quote (.string s) s

inductive Rows {α : Type} (means : Document → α → Prop) : Document → List α → Prop
  | array {items : List Document} {as : List α} (each : List.Forall₂ means items as) :
      Rows means (.array items) as

inductive Section {α : Type} (holds : List (Label × Document) → α → Prop) : Document → α → Prop
  | object {members : List (Label × Document)} {a : α} (here : holds members a) :
      Section holds (.object members) a

theorem wordKnown {d : Document} {w : UInt64} (word : Word d w) : word? d = some w := by
  cases word
  exact Value.wordRead w

theorem wordWritten {w : UInt64} : Word (Value.ofNat w.toNat).document w := .int

theorem floatOfWord (w : UInt64) : Ratio.toFloat w.toNat = w.toFloat := by
  rw [Ratio.toFloat, Nat.toUInt64, UInt64.ofNat_toNat]

theorem numberKnown {d : Document} {x : Float} (number : Number d x) : float? d = some x := by
  cases number with
  | float => rfl
  | @whole w =>
    have positive : ¬ ((w.toNat : Int) < 0) := by omega
    rw [float?, if_neg positive, Int.natAbs_natCast, floatOfWord]
  | @negative w nonzero =>
    have some : w.toNat ≠ 0 := fun zero => nonzero (UInt64.toNat_inj.1 zero)
    have below : -(w.toNat : Int) < 0 := by omega
    rw [float?, if_pos below, Int.natAbs_neg, Int.natAbs_natCast, floatOfWord]

theorem numberWritten {x : Float} (finite : x.isFinite = true) :
    Number (Value.ofFloat x).document x := by
  rw [Value.ofFloat, if_pos finite]
  exact .float

theorem quoteKnown {d : Document} {s : String} (quote : Quote d s) : string? d = some s := by
  cases quote
  rfl

theorem quoteWritten {s : String} : Quote (Value.string s).document s := .string

theorem rowsKnown {α : Type} {means : Document → α → Prop} {read : Document → Option α}
    {d : Document} {as : List α} (rows : Rows means d as)
    (known : ∀ {d a}, means d a → read d = some a) : list? read d = some as := by
  cases rows with
  | array each => exact allRead (each.imp fun _ _ => known)

theorem rowsWritten {α : Type} {means : Document → α → Prop} {write : α → Value} {as : List α}
    (each : ∀ a ∈ as, means (write a).document a) :
    Rows means (Value.array (as.map write)).document as := by
  rw [Value.document, Value.documentsMap, List.map_map]
  refine .array ?_
  rw [List.forall₂_map_left_iff, List.forall₂_same]
  exact each

/- What an object states under one name: nothing, or what its only value of that name means. Members
of other names are free. -/
inductive States {α : Type} (means : Document → α → Prop) (members : List (Label × Document))
    (name : String) : Option α → Prop
  | nothing (absent : ∀ m ∈ members, m.1.name ≠ name) : States means members name none
  | once (before after : List (Label × Document)) {label : Label} {d : Document} {a : α}
      (here : members = before ++ (label, d) :: after) (called : label.name = name)
      (others : ∀ m ∈ before ++ after, m.1.name ≠ name) (meaning : means d a) :
      States means members name (some a)

namespace States
variable {α β : Type} {means : Document → α → Prop} {members : List (Label × Document)}
  {name : String}

theorem required {read : Document → Option α} {a : α} (states : States means members name (some a))
    (known : ∀ {d a}, means d a → read d = some a) :
    ∃ d, field? members name = some (some d) ∧ read d = some a := by
  cases states with
  | once before after here called others meaning =>
    subst here called
    exact ⟨_, fieldOnce others, known meaning⟩

/- Where nothing is stated a reader has its fallback. -/
theorem optional {read : Document → Option β} {f : α → β} {a : Option α}
    (states : States means members name a) (known : ∀ {d a}, means d a → read d = some (f a)) :
    ∃ field, field? members name = some field ∧
      ∀ fallback, orElse fallback read field = some ((a.map f).getD fallback) := by
  cases states with
  | nothing absent => exact ⟨none, fieldAbsent absent, fun _ => rfl⟩
  | once before after here called others meaning =>
    subst here called
    exact ⟨some _, fieldOnce others, fun _ => known meaning⟩

theorem optionalSame {read : Document → Option α} {a : Option α}
    (states : States means members name a) (known : ∀ {d a}, means d a → read d = some a) :
    ∃ field, field? members name = some field ∧
      ∀ fallback, orElse fallback read field = some (a.getD fallback) := by
  have general := states.optional (f := id) known
  rwa [Option.map_id] at general

/- A record states each of its fields, at whatever place it is written. -/
theorem written {names : List String} {fields : List (String × Value)} (distinct : names.Nodup)
    (named : fields.map Prod.fst = names) (place : Nat) {v : Value}
    (here : fields[place]? = some (name, v)) {a : α} (meaning : means v.document a) :
    States means (Value.labelled (Table.ofList fields).entries) name (some a) := by
  subst named
  have member : (name, v) ∈ fields := List.mem_of_getElem? here
  obtain ⟨before, after, whole, others⟩ := Value.writtenOnce (Table.ofList fields).ascending
    ((Table.memberDistinct distinct).2 member)
  exact .once before after whole rfl others meaning

end States

end Intake.Json.Document
