/-!
# Jump origins

The addresses from which a jump was taken, each once and in ascending order. The order is part of
the type, so two sets with the same members are the same value.
-/

namespace ByteMachine

/-- A finite set of addresses, as the ascending list of its members. -/
@[ext] structure Origins where
  addresses : List Nat := []
  ascending : addresses.Pairwise (· < ·) := by simp
  deriving DecidableEq

namespace Origins

/-- Put an address in its place in an ascending list, unless it is there. -/
def insertInto (address : Nat) : List Nat → List Nat
  | [] => [address]
  | first :: others =>
    if address < first then address :: first :: others
    else if address = first then first :: others
    else first :: insertInto address others

/-- An insertion adds the address and nothing else. -/
theorem mem_insertInto {address other : Nat} {addresses : List Nat} :
    other ∈ insertInto address addresses ↔ other = address ∨ other ∈ addresses := by
  induction addresses with
  | nil => simp [insertInto]
  | cons first others ih =>
    unfold insertInto
    split
    · simp
    · split
      · subst first
        simp
      · simp [ih, or_left_comm]

/-- An insertion keeps the order. -/
theorem insertInto_ascending (address : Nat) {addresses : List Nat}
    (h : addresses.Pairwise (· < ·)) : (insertInto address addresses).Pairwise (· < ·) := by
  induction addresses with
  | nil => simp [insertInto]
  | cons first others ih =>
    have hfirst : ∀ other ∈ others, first < other := (List.pairwise_cons.mp h).1
    have hothers : others.Pairwise (· < ·) := (List.pairwise_cons.mp h).2
    unfold insertInto
    split
    · rename_i hlt
      refine List.pairwise_cons.mpr ⟨fun other hmem => ?_, h⟩
      rcases List.mem_cons.mp hmem with rfl | hmem
      · exact hlt
      · exact Nat.lt_trans hlt (hfirst other hmem)
    · split
      · exact h
      · refine List.pairwise_cons.mpr ⟨fun other hmem => ?_, ih hothers⟩
        rcases mem_insertInto.mp hmem with rfl | hmem
        · omega
        · exact hfirst other hmem

/-- No address. -/
def empty : Origins := {}

/-- The set with one more address. -/
def insert (origins : Origins) (address : Nat) : Origins where
  addresses := insertInto address origins.addresses
  ascending := insertInto_ascending address origins.ascending

instance : Membership Nat Origins where
  mem origins address := address ∈ origins.addresses

instance (address : Nat) (origins : Origins) : Decidable (address ∈ origins) :=
  inferInstanceAs (Decidable (address ∈ origins.addresses))

/-- Number of addresses. -/
def size (origins : Origins) : Nat :=
  origins.addresses.length

/-- Nothing is in the empty set. -/
@[simp] theorem not_mem_empty (address : Nat) : address ∉ empty := by
  change address ∉ ([] : List Nat)
  simp

/-- The members after an insertion. -/
@[simp] theorem mem_insert {origins : Origins} {address other : Nat} :
    other ∈ origins.insert address ↔ other = address ∨ other ∈ origins :=
  mem_insertInto

/-- Inserting a member changes nothing. -/
theorem insert_of_mem {origins : Origins} {address : Nat} (h : address ∈ origins) :
    origins.insert address = origins := by
  have key : ∀ addresses : List Nat, addresses.Pairwise (· < ·) → address ∈ addresses →
      insertInto address addresses = addresses := by
    intro addresses
    induction addresses with
    | nil => simp
    | cons first others ih =>
      intro hsorted hmem
      have hfirst : ∀ other ∈ others, first < other := (List.pairwise_cons.mp hsorted).1
      unfold insertInto
      rcases List.mem_cons.mp hmem with rfl | hmem
      · simp
      · have hlt := hfirst address hmem
        rw [if_neg (by omega), if_neg (by omega),
          ih (List.pairwise_cons.mp hsorted).2 hmem]
  exact Origins.ext (key origins.addresses origins.ascending h)

/-- Inserting a new address makes the set larger by one. -/
theorem size_insert_of_not_mem {origins : Origins} {address : Nat} (h : address ∉ origins) :
    (origins.insert address).size = origins.size + 1 := by
  have key : ∀ addresses : List Nat, address ∉ addresses →
      (insertInto address addresses).length = addresses.length + 1 := by
    intro addresses
    induction addresses with
    | nil => simp [insertInto]
    | cons first others ih =>
      intro hmem
      have hne : address ≠ first := fun heq => hmem (by simp [heq])
      unfold insertInto
      rw [if_neg hne]
      split
      · rfl
      · simp [ih fun hin => hmem (by simp [hin])]
  exact key origins.addresses h

end Origins

end ByteMachine
