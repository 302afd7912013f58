import Mathlib.Data.List.Basic

/-!
# Streams cut into chunks

A machine that takes its input in chunks and gives some output for each of them.

* `feed`             the outputs for a list of chunks, one behind the other;
* `blockwise`        a function of blocks on the whole blocks of a list;
* `bufferStep`       the machine that keeps what does not fill a block;
* `feed_bufferStep`  it computes `blockwise`, however the input is cut.
-/

namespace Streams

variable {σ α β : Type*}

/-! ## Chunks -/

def feed (step : σ → List α → σ × List β) : σ → List (List α) → σ × List β
  | s, [] => (s, [])
  | s, x :: xs => ((feed step (step s x).1 xs).1, (step s x).2 ++ (feed step (step s x).1 xs).2)

section
variable (step : σ → List α → σ × List β) (s : σ) (x : List α) (xs ys : List (List α))

theorem feed_nil : feed step s [] = (s, []) := rfl

theorem feed_cons : feed step s (x :: xs)
    = ((feed step (step s x).1 xs).1, (step s x).2 ++ (feed step (step s x).1 xs).2) := rfl

theorem feed_append : feed step s (xs ++ ys) = ((feed step (feed step s xs).1 ys).1,
    (feed step s xs).2 ++ (feed step (feed step s xs).1 ys).2) := by
  induction xs generalizing s with
  | nil => rfl
  | cons x xs ih =>
    rw [List.cons_append, feed_cons, ih, feed_cons, List.append_assoc]

theorem feed_concat : feed step s (xs ++ [x]) = ((step (feed step s xs).1 x).1,
    (feed step s xs).2 ++ (step (feed step s xs).1 x).2) := by
  rw [feed_append, feed_cons, feed_nil, List.append_nil]

end

/-! ## Blocks -/

section
variable (n : Nat) (f : List α → List β)

/-- the first `k` blocks -/
def mapBlocks : Nat → List α → List β
  | 0, _ => []
  | k + 1, l => f (l.take n) ++ mapBlocks k (l.drop n)

def blockwise (l : List α) : List β := mapBlocks n f (l.length / n) l

theorem mapBlocks_append (k : Nat) (l m : List α) (h : k * n ≤ l.length) :
    mapBlocks n f k (l ++ m) = mapBlocks n f k l := by
  induction k generalizing l with
  | zero => rfl
  | succ k ih =>
    rw [Nat.succ_mul] at h
    unfold mapBlocks
    rw [List.take_append_of_le_length (by omega), List.drop_append_of_le_length (by omega),
      ih (l.drop n) (by rw [List.length_drop]; omega)]

theorem mapBlocks_add (j k : Nat) (l : List α) : mapBlocks n f (j + k) l
    = mapBlocks n f j l ++ mapBlocks n f k (l.drop (j * n)) := by
  induction j generalizing l with
  | zero => rw [Nat.zero_add, Nat.zero_mul, List.drop_zero]; rfl
  | succ j ih =>
    rw [Nat.succ_add, Nat.succ_mul]
    show f (l.take n) ++ mapBlocks n f (j + k) (l.drop n) = _
    rw [ih, List.drop_drop, Nat.add_comm n, ← List.append_assoc]
    rfl

variable {n f}

theorem mapBlocks_length (hf : ∀ b, b.length = n → (f b).length = n) (k : Nat) (l : List α)
    (h : k * n ≤ l.length) : (mapBlocks n f k l).length = k * n := by
  induction k generalizing l with
  | zero => rw [Nat.zero_mul]; rfl
  | succ k ih =>
    rw [Nat.succ_mul] at h ⊢
    unfold mapBlocks
    rw [List.length_append, ih (l.drop n) (by rw [List.length_drop]; omega),
      hf _ (by rw [List.length_take]; omega)]
    omega

theorem blockwise_length (hf : ∀ b, b.length = n → (f b).length = n) (l : List α) :
    (blockwise n f l).length = l.length / n * n :=
  mapBlocks_length hf _ l (Nat.div_mul_le_self ..)

variable (n f)

/-! ## The machine with a buffer -/

/-- what does not fill a block -/
def leftOver (l : List α) : List α := l.drop (l.length / n * n)

def bufferStep (buf x : List α) : List α × List β :=
  (leftOver n (buf ++ x), blockwise n f (buf ++ x))

variable {n}

theorem leftOver_length (l : List α) : (leftOver n l).length = l.length % n := by
  unfold leftOver
  rw [List.length_drop, Nat.mod_eq_sub_div_mul]

theorem div_leftOver_append (hn : 0 < n) (l m : List α) :
    (l ++ m).length / n = l.length / n + (leftOver n l ++ m).length / n := by
  rw [List.length_append, List.length_append, leftOver_length, ← Nat.mul_add_div hn,
    ← Nat.add_assoc, Nat.div_add_mod]

theorem blockwise_append (hn : 0 < n) (l m : List α) :
    blockwise n f (l ++ m) = blockwise n f l ++ blockwise n f (leftOver n l ++ m) := by
  unfold blockwise
  have hle : l.length / n * n ≤ l.length := Nat.div_mul_le_self ..
  rw [div_leftOver_append hn, mapBlocks_add, mapBlocks_append n f _ l m hle,
    List.drop_append_of_le_length hle]
  rfl

theorem leftOver_append (hn : 0 < n) (l m : List α) :
    leftOver n (l ++ m) = leftOver n (leftOver n l ++ m) := by
  have hle : l.length / n * n ≤ l.length := Nat.div_mul_le_self ..
  have hsplit : leftOver n l ++ m = (l ++ m).drop (l.length / n * n) :=
    (List.drop_append_of_le_length hle).symm
  rw [leftOver, div_leftOver_append hn, Nat.add_mul, ← List.drop_drop, ← hsplit]
  rfl

theorem leftOver_of_lt {l : List α} (h : l.length < n) : leftOver n l = l := by
  rw [leftOver, Nat.div_eq_of_lt h, Nat.zero_mul, List.drop_zero]

/-- **However the input is cut**, the outputs are those of its whole blocks. -/
theorem feed_bufferStep (hn : 0 < n) (buf : List α) (h : buf.length < n) (xs : List (List α)) :
    feed (bufferStep n f) buf xs
      = (leftOver n (buf ++ xs.flatten), blockwise n f (buf ++ xs.flatten)) := by
  induction xs generalizing buf with
  | nil =>
    rw [List.flatten_nil, List.append_nil, leftOver_of_lt h, feed_nil]
    unfold blockwise
    rw [Nat.div_eq_of_lt h]
    rfl
  | cons x xs ih =>
    have hlt : (leftOver n (buf ++ x)).length < n := by
      rw [leftOver_length]
      exact Nat.mod_lt _ hn
    have hrest : feed (bufferStep n f) (bufferStep n f buf x).1 xs = _ := ih _ hlt
    rw [feed_cons, List.flatten_cons, ← List.append_assoc, blockwise_append f hn (buf ++ x),
      leftOver_append hn (buf ++ x), hrest]
    rfl

end

end Streams
