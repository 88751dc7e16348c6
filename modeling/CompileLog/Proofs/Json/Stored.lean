import CompileLog.Json.Stored
import CompileLog.Proofs.Json.Parser

/-!
# Stored values are kept

Writing a value and reading it back gives it again. A structure is written with all its fields
under names of their own, so each is found again where its name is looked up; a case is told from
the others by its name.
-/

namespace CompileLog.Json

open Text

variable {α : Type} [Stored α]

/-- A value that is kept: it is read back from what is written for it. -/
structure Kept (a : α) : Prop where
  /-- What is written can be read back as a text. -/
  plain : (write a).Plain
  /-- What is written is told from an absent value. -/
  ne_null : write a ≠ .null
  /-- What is written is read as the value. -/
  read?_write : read? (write a) = some a

/-- A type whose values are all kept. -/
class Lossless (α : Type) [Stored α] : Prop where
  /-- Every value is kept. -/
  kept : ∀ a : α, Kept a

/-! ### Structures -/

/-- An object can be read back as a text if its members can. -/
theorem plain_object_iff {ms : List (String × Value)} :
    (Value.object ms).Plain ↔ ∀ m ∈ ms, m.2.Plain :=
  ⟨fun | .object h => h, .object⟩

/-- Members under the names asked for, each another, are all found. -/
theorem Fields.find?_object {names : List String} {members : List (String × Value)}
    (hnames : members.map Prod.fst = names) (hdistinct : distinctNames names = true) :
    Fields.find? names (.object members) = some ⟨members, false⟩ := by
  have hknown : (members.filter fun m => names.contains m.1) = members := by
    rw [List.filter_eq_self]
    intro m hm
    rw [List.contains_iff_mem, ← hnames]
    exact List.mem_map_of_mem hm
  simp only [Fields.find?, hknown, hnames, hdistinct, if_true]

/-- A structure is kept if its fields can be read back as texts, and found under their names make
it. -/
theorem Kept.of_fields {a : α} {names : List String} {members : List (String × Value)}
    {build : Fields → Option α} (hwrite : write a = .object members)
    (hread : ∀ v, read? v = (Fields.find? names v).bind build)
    (hnames : members.map Prod.fst = names) (hdistinct : distinctNames names = true)
    (hplain : ∀ m ∈ members, m.2.Plain) (hbuild : build ⟨members, false⟩ = some a) : Kept a where
  plain := by rw [hwrite]; exact .object hplain
  ne_null := by rw [hwrite]; exact Value.noConfusion
  read?_write := by
    rw [hwrite, hread, Fields.find?_object hnames hdistinct, Option.bind_some, hbuild]

namespace Fields

variable {name other : String} {v : Value} {rest : List (String × Value)} {positional : Bool}
  {β : Type} {read : Value → Option β}

/-- A member of another name is passed over. -/
theorem lookup_cons_of_ne (h : name ≠ other) :
    List.lookup name ((other, v) :: rest) = List.lookup name rest := by
  rw [List.lookup_cons, beq_false_of_ne h]

/-- A field that must be there is read where it comes first. -/
@[simp] theorem needAs_cons_self : needAs ⟨(name, v) :: rest, positional⟩ name read = read v := by
  rw [needAs, List.lookup_cons_self, Option.bind_some]

/-- A field that must be there is looked for behind one of another name. -/
@[simp] theorem needAs_cons_of_ne (h : name ≠ other) :
    needAs ⟨(other, v) :: rest, positional⟩ name read = needAs ⟨rest, positional⟩ name read := by
  rw [needAs, lookup_cons_of_ne h, needAs]

/-- A field that may be missing is read where it comes first. -/
@[simp] theorem orElseAs_cons_self (absent : β) :
    orElseAs ⟨(name, v) :: rest, positional⟩ name absent read = read v := by
  rw [orElseAs, List.lookup_cons_self]

/-- A field that may be missing is looked for behind one of another name. -/
@[simp] theorem orElseAs_cons_of_ne (h : name ≠ other) (absent : β) :
    orElseAs ⟨(other, v) :: rest, positional⟩ name absent read =
      orElseAs ⟨rest, positional⟩ name absent read := by
  rw [orElseAs, lookup_cons_of_ne h, orElseAs]

/-- A field that may be missing or `null` is read where it comes first. -/
theorem maybeAs_cons_self {w : β → Value} {o : Option β}
    (h : ∀ b ∈ o, w b ≠ .null ∧ read (w b) = some b) :
    maybeAs ⟨(name, .optional w o) :: rest, positional⟩ name read = some o := by
  rw [maybeAs, List.lookup_cons_self]
  cases o with
  | none => rfl
  | some b =>
    obtain ⟨hnull, hread⟩ := h b rfl
    simp only [Value.optional, hread, Option.map_some]

/-- A field that may be missing or `null` is looked for behind one of another name. -/
@[simp] theorem maybeAs_cons_of_ne (h : name ≠ other) :
    maybeAs ⟨(other, v) :: rest, positional⟩ name read = maybeAs ⟨rest, positional⟩ name read := by
  rw [maybeAs, lookup_cons_of_ne h, maybeAs]

/-- A field of a type of its own that may be missing or `null` is looked for behind one of another
name. -/
@[simp] theorem maybe_cons_of_ne {γ : Type} [Stored γ] (h : name ≠ other) :
    maybe (α := γ) ⟨(other, v) :: rest, positional⟩ name = maybe ⟨rest, positional⟩ name :=
  maybeAs_cons_of_ne h

end Fields

/-! ### Lossless types -/

section Lossless

variable [Lossless α]

/-- What is written of a lossless type can be read back as a text. -/
@[simp] theorem plain_write (a : α) : (write a).Plain := (Lossless.kept a).plain

/-- What is written of a lossless type is read as the value. -/
@[simp] theorem read?_write (a : α) : read? (write a) = some a := (Lossless.kept a).read?_write

/-- What is written of a lossless type, or of its absence, can be read back as a text. -/
@[simp] theorem plain_write_option (o : Option α) : (write o).Plain := by
  cases o with
  | none => exact .null
  | some a => exact plain_write a

/-- A field of a lossless type that may be missing or `null` is read where it comes first. -/
@[simp] theorem Fields.maybe_cons_self {name : String} {rest : List (String × Value)}
    {positional : Bool} (o : Option α) :
    maybe ⟨(name, write o) :: rest, positional⟩ name = some o :=
  maybeAs_cons_self fun a _ => ⟨(Lossless.kept a).ne_null, read?_write a⟩

end Lossless

/-! ### Lists and numbers -/

/-- A list of kept values is kept. -/
theorem Kept.list {xs : List α} (h : ∀ x ∈ xs, Kept x) : Kept xs where
  plain := by
    refine .array fun v hv => ?_
    obtain ⟨x, hx, rfl⟩ := List.mem_map.mp hv
    exact (h x hx).plain
  ne_null := Value.noConfusion
  read?_write := mapM_map fun x hx => (h x hx).read?_write

instance [Lossless α] : Lossless (List α) where
  kept _ := .list fun x _ => Lossless.kept x

/-- A number can be read back as a text. -/
@[simp] theorem plain_natural (n : Nat) : (Value.natural n).Plain := .integer n

/-- A number below a bound is read as it. -/
theorem natBelow?_natural {bound n : Nat} (h : n < bound) :
    natBelow? bound (.natural n) = some n := by
  simp [natBelow?, Value.natural]
  omega

/-- A number, or its absence, can be read back as a text. -/
@[simp] theorem plain_optional_natural (o : Option Nat) : (Value.optional .natural o).Plain := by
  cases o with
  | none => exact .null
  | some n => exact plain_natural n

/-- A number below a bound that may be missing is read where it comes first. -/
theorem Fields.maybeAs_cons_natural {name : String} {rest : List (String × Value)}
    {positional : Bool} {bound : Nat} {o : Option Nat} (h : ∀ n ∈ o, n < bound) :
    maybeAs ⟨(name, .optional .natural o) :: rest, positional⟩ name (natBelow? bound) = some o :=
  maybeAs_cons_self fun n hn => ⟨Value.noConfusion, natBelow?_natural (h n hn)⟩

instance : Lossless Bool where
  kept b := ⟨.bool b, Value.noConfusion, rfl⟩

instance : Lossless String where
  kept s := ⟨.string s, Value.noConfusion, rfl⟩

instance : Lossless UInt64 where
  kept n := ⟨.integer n.toNat, Value.noConfusion, by
    show (natBelow? UInt64.size (.natural n.toNat)).map UInt64.ofNat = some n
    rw [natBelow?_natural n.toNat_lt, Option.map_some, UInt64.ofNat_toNat]⟩

instance : Lossless UInt32 where
  kept n := ⟨.integer n.toNat, Value.noConfusion, by
    show (natBelow? UInt32.size (.natural n.toNat)).map UInt32.ofNat = some n
    rw [natBelow?_natural n.toNat_lt, Option.map_some, UInt32.ofNat_toNat]⟩

instance : Lossless UInt8 where
  kept n := ⟨.integer n.toNat, Value.noConfusion, by
    show (natBelow? UInt8.size (.natural n.toNat)).map UInt8.ofNat = some n
    rw [natBelow?_natural n.toNat_lt, Option.map_some, UInt8.ofNat_toNat]⟩

instance : Lossless Int32 where
  kept n := ⟨.integer n.toInt, Value.noConfusion, by
    show signed32? n.toInt = some n
    rw [signed32?, if_pos ⟨n.le_toInt, n.toInt_lt⟩, Int32.ofInt_toInt]⟩

/-! ### Cases -/

/-- A case that holds nothing is kept if its name is read as it. -/
theorem Kept.of_name {a : α} {name : String} (hwrite : write a = .string name)
    (hread : read? (.string name : Value) = some a) : Kept a where
  plain := by rw [hwrite]; exact .string name
  ne_null := by rw [hwrite]; exact Value.noConfusion
  read?_write := by rw [hwrite, hread]

/-- A case that holds something is kept if that can be read back as a text and makes the case. -/
theorem Kept.of_case {a : α} {name : String} {held : Value} (hwrite : write a = caseOf name held)
    (hplain : held.Plain) (hread : read? (caseOf name held) = some a) : Kept a where
  plain := by
    rw [hwrite, caseOf, plain_object_iff]
    simpa using hplain
  ne_null := by rw [hwrite]; exact Value.noConfusion
  read?_write := by rw [hwrite, hread]

/-- A case that holds a value of a lossless type is kept. -/
theorem Kept.of_holding {β : Type} [Stored β] [Lossless β] {f : β → α} {b : β} {name : String}
    (hwrite : write (f b) = caseOf name (write b))
    (hread : ∀ v, read? (caseOf name v) = holding f (some v)) : Kept (f b) :=
  .of_case hwrite (plain_write b) (by rw [hread, holding, Json.read?_write, Option.map_some])

/-- A case that holds named fields is kept if these can be read back as texts, and found under
their names make it. -/
theorem Kept.of_caseFields {a : α} {name : String} {names : List String}
    {members : List (String × Value)} {build : Fields → Option α}
    (hwrite : write a = caseOf name (.object members))
    (hread : ∀ v, read? (caseOf name v) = withFields names build (some v))
    (hnames : members.map Prod.fst = names) (hdistinct : distinctNames names = true)
    (hplain : ∀ m ∈ members, m.2.Plain) (hbuild : build ⟨members, false⟩ = some a) : Kept a :=
  .of_case hwrite (.object hplain) (by
    rw [hread, withFields, Fields.find?_object hnames hdistinct, Option.bind_some, hbuild])

end CompileLog.Json
