import Mathlib.Data.List.Basic
import Mathlib.Data.List.Induction
import Mathlib.Data.Option.Basic

/-!
# Radix trees stored in memory

A radix tree stored in memory consists of tables.  The entries of a table are
indexed by one digit of the key, and an entry either has no child or names the
table of the next level.  `node` follows a list of digits from the root to a table.

The tree of depth `depth` is well shaped when different paths of at most that
length lead to different tables (`Separated`).  Two updates keep that shape: the
change of a table at the lowest level, which no path passes through, and the
attachment of a fresh blank table below an entry that had no child.
-/

namespace Lord84.Theory.RadixTree

universe u v w

variable {Table : Type u} {Digit : Type v} {Entry : Type w}
variable (child : Entry → Option Table)

/-- The table reached from `root` along a path of digits. -/
def node (contents : Table → Digit → Entry) (root : Table) : List Digit → Option Table
  | [] => some root
  | digit :: path => (child (contents root digit)).bind fun next => node contents next path

/-- The entry selected by the last digit of a key whose other digits are `path`. -/
def lookup (contents : Table → Digit → Entry) (root : Table) (path : List Digit)
    (digit : Digit) : Option Entry :=
  (node child contents root path).bind fun table =>
    (child (contents table digit)).map fun _ => contents table digit

/-- Different paths of length at most `depth` lead to different tables. -/
def Separated (contents : Table → Digit → Entry) (root : Table) (depth : Nat) : Prop :=
  ∀ left right table, left.length ≤ depth → right.length ≤ depth →
    node child contents root left = some table →
    node child contents root right = some table → left = right

variable {child} {contents changed : Table → Digit → Entry} {root : Table} {depth : Nat}

theorem node_append (contents : Table → Digit → Entry) (root : Table)
    (left right : List Digit) :
    node child contents root (left ++ right) =
      (node child contents root left).bind fun table => node child contents table right := by
  induction left generalizing root with
  | nil => rfl
  | cons digit left ih =>
      simp only [List.cons_append, node, ih, Option.bind_assoc]

theorem node_concat (contents : Table → Digit → Entry) (root : Table)
    (path : List Digit) (digit : Digit) :
    node child contents root (path ++ [digit]) =
      (node child contents root path).bind fun table => child (contents table digit) := by
  rw [node_append]
  congr 1
  funext table
  simp [node]

/-- A tree whose root has no children has no other table. -/
theorem node_of_blank (blank : ∀ digit, child (contents root digit) = none)
    {path : List Digit} {table : Table}
    (found : node child contents root path = some table) : path = [] := by
  cases path with
  | nil => rfl
  | cons digit path => simp [node, blank] at found

/-! ## Changing a table of the lowest level -/

/-- Paths of length at most `depth` only read tables that are less than `depth`
digits away from the root. -/
theorem node_congr
    (agree : ∀ path table digit, path.length < depth →
      node child contents root path = some table →
      child (changed table digit) = child (contents table digit))
    {path : List Digit} (short : path.length ≤ depth) :
    node child changed root path = node child contents root path := by
  induction path using List.reverseRecOn with
  | nil => rfl
  | append_singleton path digit ih =>
      rw [List.length_append, List.length_singleton] at short
      have shorter : path.length < depth := short
      rw [node_concat, node_concat, ih (Nat.le_of_lt shorter)]
      cases found : node child contents root path with
      | none => rfl
      | some table => exact agree path table digit shorter found

/-- Lookups only read tables of the tree. -/
theorem lookup_congr
    (agree : ∀ path table position, path.length ≤ depth →
      node child contents root path = some table →
      changed table position = contents table position)
    {path : List Digit} (digit : Digit) (short : path.length ≤ depth) :
    lookup child changed root path digit = lookup child contents root path digit := by
  have same : node child changed root path = node child contents root path := by
    apply node_congr _ short
    intro higher table position shorter reached
    rw [agree higher table position (Nat.le_of_lt shorter) reached]
  simp only [lookup, same]
  cases reached : node child contents root path with
  | none => rfl
  | some table => simp only [Option.bind_some, agree path table digit short reached]

/-- Changing entries of one table of the lowest level moves no table. -/
theorem node_leaf_update {path : List Digit} {table : Table}
    (separated : Separated child contents root depth)
    (lowest : path.length = depth) (found : node child contents root path = some table)
    (elsewhere : ∀ query other position, query.length ≤ depth →
      node child contents root query = some other → other ≠ table →
      changed other position = contents other position)
    {query : List Digit} (short : query.length ≤ depth) :
    node child changed root query = node child contents root query := by
  apply node_congr _ short
  intro higher other position shorter reached
  have different : other ≠ table := by
    rintro rfl
    have same := separated higher path other (Nat.le_of_lt shorter)
      (Nat.le_of_eq lowest) reached found
    rw [same] at shorter
    omega
  rw [elsewhere higher other position (Nat.le_of_lt shorter) reached different]

/-- A change of one entry at the lowest level changes one lookup. -/
theorem lookup_leaf_update [DecidableEq Digit] {path : List Digit} {digit : Digit}
    {table : Table} (separated : Separated child contents root depth)
    (lowest : path.length = depth) (found : node child contents root path = some table)
    (elsewhere : ∀ query other position, query.length ≤ depth →
      node child contents root query = some other → (other, position) ≠ (table, digit) →
      changed other position = contents other position)
    {query : List Digit} (position : Digit) (queryLowest : query.length = depth) :
    lookup child changed root query position =
      if query = path ∧ position = digit then
        (child (changed table digit)).map fun _ => changed table digit
      else lookup child contents root query position := by
  have same : node child changed root query = node child contents root query := by
    apply node_leaf_update separated lowest found _ (Nat.le_of_eq queryLowest)
    intro other reachedTable place short reached different
    apply elsewhere other reachedTable place short reached
    exact fun equal => different (Prod.mk.inj equal).1
  simp only [lookup, same]
  split
  next here =>
    rw [here.1, here.2, found]
    rfl
  next there =>
    cases reached : node child contents root query with
    | none => rfl
    | some other =>
        have apart : (other, position) ≠ (table, digit) := by
          intro equal
          obtain ⟨rfl, rfl⟩ := Prod.mk.inj equal
          exact there ⟨separated query path other (Nat.le_of_eq queryLowest)
            (Nat.le_of_eq lowest) reached found, rfl⟩
        simp only [Option.bind_some,
          elsewhere query other position (Nat.le_of_eq queryLowest) reached apart]

/-! ## Attaching a fresh table -/

/-- A fresh blank table is attached below an entry that had no child. -/
structure Graft (child : Entry → Option Table) (contents changed : Table → Digit → Entry)
    (root : Table) (depth : Nat) (path : List Digit) (digit : Digit)
    (table fresh : Table) : Prop where
  separated : Separated child contents root depth
  short : path.length < depth
  found : node child contents root path = some table
  vacant : child (contents table digit) = none
  unused : ∀ query, query.length ≤ depth → node child contents root query ≠ some fresh
  attached : child (changed table digit) = some fresh
  blank : ∀ position, child (changed fresh position) = none
  elsewhere : ∀ query other position, query.length ≤ depth →
    node child contents root query = some other → (other, position) ≠ (table, digit) →
    changed other position = contents other position

namespace Graft

variable {path : List Digit} {digit : Digit} {table fresh : Table}

/-- The tables after the attachment. -/
theorem node [DecidableEq Digit]
    (graft : Graft child contents changed root depth path digit table fresh)
    {query : List Digit} (short : query.length ≤ depth) :
    node child changed root query =
      if query = path ++ [digit] then some fresh
      else RadixTree.node child contents root query := by
  induction query using List.reverseRecOn with
  | nil => simp [RadixTree.node]
  | append_singleton query last ih =>
      rw [List.length_append, List.length_singleton] at short
      have shorter : query.length ≤ depth := Nat.le_of_lt short
      rw [node_concat, ih shorter]
      by_cases below : query = path ++ [digit]
      · -- Below the new table there is nothing, before and after.
        have longer : query ++ [last] ≠ path ++ [digit] := by
          intro equal
          have lengths := congrArg List.length equal
          simp [below] at lengths
        rw [if_pos below, if_neg longer, node_concat, below, node_concat, graft.found]
        simp [graft.blank, graft.vacant]
      · rw [if_neg below, node_concat]
        cases reached : RadixTree.node child contents root query with
        | none =>
            have other : query ++ [last] ≠ path ++ [digit] := by
              intro equal
              obtain ⟨rfl, -⟩ := List.append_inj' equal rfl
              rw [graft.found] at reached
              cases reached
            rw [if_neg other]
            rfl
        | some other =>
            by_cases edge : (other, last) = (table, digit)
            · obtain ⟨rfl, rfl⟩ := Prod.mk.inj edge
              have samePath : query = path :=
                graft.separated query path other shorter (Nat.le_of_lt graft.short)
                  reached graft.found
              rw [if_pos (by rw [samePath])]
              exact graft.attached
            · have otherPath : query ++ [last] ≠ path ++ [digit] := by
                intro equal
                obtain ⟨rfl, lastEq⟩ := List.append_inj' equal rfl
                rw [graft.found] at reached
                cases reached
                cases lastEq
                exact edge rfl
              rw [if_neg otherPath]
              simp only [Option.bind_some,
                graft.elsewhere query other last shorter reached edge]

/-- Old tables stay where they were. -/
theorem node_of_old [DecidableEq Digit]
    (graft : Graft child contents changed root depth path digit table fresh)
    {query : List Digit} {other : Table} (short : query.length ≤ depth)
    (reached : RadixTree.node child contents root query = some other) :
    RadixTree.node child changed root query = some other := by
  rw [graft.node short, if_neg]
  · exact reached
  · rintro rfl
    rw [node_concat, graft.found, Option.bind_some, graft.vacant] at reached
    cases reached

/-- The tree stays well shaped. -/
theorem separated_after [DecidableEq Digit]
    (graft : Graft child contents changed root depth path digit table fresh) :
    Separated child changed root depth := by
  intro left right other leftShort rightShort leftFound rightFound
  rw [graft.node leftShort] at leftFound
  rw [graft.node rightShort] at rightFound
  split at leftFound <;> split at rightFound
  · simp_all
  · cases leftFound
    exact absurd rightFound (graft.unused right rightShort)
  · cases rightFound
    exact absurd leftFound (graft.unused left leftShort)
  · exact graft.separated left right other leftShort rightShort leftFound rightFound

/-- No lookup changes. -/
theorem lookup [DecidableEq Digit]
    (graft : Graft child contents changed root depth path digit table fresh)
    {query : List Digit} (position : Digit) (lowest : query.length = depth) :
    lookup child changed root query position =
      RadixTree.lookup child contents root query position := by
  have short := Nat.le_of_eq lowest
  simp only [RadixTree.lookup, graft.node short]
  split
  next here =>
    have missing : RadixTree.node child contents root query = none := by
      rw [here, node_concat, graft.found, Option.bind_some, graft.vacant]
    simp [missing, graft.blank]
  next =>
    cases reached : RadixTree.node child contents root query with
    | none => rfl
    | some other =>
        have apart : (other, position) ≠ (table, digit) := by
          intro equal
          obtain ⟨rfl, -⟩ := Prod.mk.inj equal
          have samePath := graft.separated query path other short
            (Nat.le_of_lt graft.short) reached graft.found
          have shorter := graft.short
          rw [← samePath] at shorter
          omega
        simp only [Option.bind_some, graft.elsewhere query other position short reached apart]

end Graft

end Lord84.Theory.RadixTree
