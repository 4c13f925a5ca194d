/-!
Dictionaries with text keys. The entries are kept in increasing order of their keys (by code
points, which for UTF-8 text is also the order of bytes), each key once, so that two dictionaries
with the same entries are equal.
-/

namespace DesignSync

/-- Puts a value under a key into entries that are in order. -/
def insertEntry {α : Type} (k : String) (v : α) : List (String × α) → List (String × α)
  | [] => [(k, v)]
  | e :: es =>
    if k < e.1 then (k, v) :: e :: es
    else if e.1 < k then e :: insertEntry k v es
    else (k, v) :: es

private theorem mem_insertEntry {α : Type} {k : String} {v : α} {es : List (String × α)}
    {x : String × α} (h : x ∈ insertEntry k v es) : x = (k, v) ∨ x ∈ es := by
  induction es with
  | nil => simpa [insertEntry] using h
  | cons e es ih =>
    unfold insertEntry at h
    split at h
    · simpa using h
    · split at h
      · rcases List.mem_cons.1 h with rfl | h
        · simp
        · rcases ih h with h | h <;> simp [h]
      · rcases List.mem_cons.1 h with h | h <;> simp [h]

/-- Entries in increasing order of their keys. -/
def Sorted {α : Type} (es : List (String × α)) : Prop := es.Pairwise fun a b => a.1 < b.1

private theorem eq_of_not_lt {a b : String} (h : ¬ a < b) (h' : ¬ b < a) : a = b :=
  String.le_antisymm (String.not_lt.1 h') (String.not_lt.1 h)

theorem sorted_insertEntry {α : Type} {es : List (String × α)} (h : Sorted es) (k : String)
    (v : α) : Sorted (insertEntry k v es) := by
  induction es with
  | nil => simp [insertEntry, Sorted]
  | cons e es ih =>
    obtain ⟨he, hes⟩ := List.pairwise_cons.1 h
    unfold insertEntry
    split
    · next hk =>
      refine List.pairwise_cons.2 ⟨fun x hx => ?_, h⟩
      rcases List.mem_cons.1 hx with rfl | hx
      · exact hk
      · exact String.lt_trans hk (he x hx)
    · split
      · next hk =>
        refine List.pairwise_cons.2 ⟨fun x hx => ?_, ih hes⟩
        rcases mem_insertEntry hx with rfl | hx
        · exact hk
        · exact he x hx
      · next h₁ h₂ =>
        have heq := eq_of_not_lt h₁ h₂
        exact List.pairwise_cons.2 ⟨fun x hx => by simpa [heq] using he x hx, hes⟩

/-- A dictionary with text keys. -/
structure Dict (α : Type) where
  entries : List (String × α)
  sorted : Sorted entries

namespace Dict

variable {α β : Type}

theorem ext {d e : Dict α} (h : d.entries = e.entries) : d = e := by
  cases d; cases e; simp_all

def empty : Dict α := ⟨[], List.Pairwise.nil⟩

instance : EmptyCollection (Dict α) := ⟨empty⟩
instance : Inhabited (Dict α) := ⟨empty⟩

instance [BEq α] : BEq (Dict α) := ⟨fun d e => d.entries == e.entries⟩
instance [Repr α] : Repr (Dict α) := ⟨fun d n => reprPrec d.entries n⟩

instance [DecidableEq α] : DecidableEq (Dict α) := fun d e =>
  if h : d.entries = e.entries then isTrue (ext h) else isFalse fun he => h (he ▸ rfl)

def insert (d : Dict α) (k : String) (v : α) : Dict α :=
  ⟨insertEntry k v d.entries, sorted_insertEntry d.sorted k v⟩

def get? (d : Dict α) (k : String) : Option α := d.entries.lookup k

def contains (d : Dict α) (k : String) : Bool := (d.get? k).isSome

def filter (d : Dict α) (p : String → α → Bool) : Dict α :=
  ⟨d.entries.filter fun e => p e.1 e.2, d.sorted.filter _⟩

def erase (d : Dict α) (k : String) : Dict α := d.filter fun k' _ => k' != k

def map (d : Dict α) (f : α → β) : Dict β :=
  ⟨d.entries.map fun e => (e.1, f e.2), by
    have h := d.sorted
    unfold Sorted at h ⊢
    exact List.pairwise_map.2 h⟩

def keys (d : Dict α) : List String := d.entries.map Prod.fst

def values (d : Dict α) : List α := d.entries.map Prod.snd

def isEmpty (d : Dict α) : Bool := d.entries.isEmpty

def size (d : Dict α) : Nat := d.entries.length

/-- All entries of `e` put into `d`, in order: where both have a key, `e` wins. -/
def extend (d e : Dict α) : Dict α := e.entries.foldl (fun acc x => acc.insert x.1 x.2) d

/-- The dictionary of a list of entries; of a repeated key the last value stays. -/
def ofList (es : List (String × α)) : Dict α := es.foldl (fun acc x => acc.insert x.1 x.2) empty

/-- The value under a key replaced by what `f` makes of it, if there is one. -/
def alter (d : Dict α) (k : String) (f : α → α) : Dict α :=
  match d.get? k with
  | some v => d.insert k (f v)
  | none => d

end Dict

end DesignSync
