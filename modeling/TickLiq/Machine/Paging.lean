import Mathlib.Algebra.Order.Group.Unbundled.Int
import Mathlib.Data.List.Destutter

/-!
# Reading a history backwards in pages

A source keeps elements in the ascending order of their keys and answers a bound with the
newest few below it. A reader asks again below the oldest element it was given, until the
start of a window or the end of the history, or for as many pages as it may ask.
-/
namespace Machine

variable {α : Type} {key : α → ℤ}

/-- Keys ascend by at least `gap`. -/
def Spaced (key : α → ℤ) (gap : ℤ) (xs : List α) : Prop :=
  xs.Pairwise fun a b => key a + gap ≤ key b

instance (key : α → ℤ) (gap : ℤ) (xs : List α) : Decidable (Spaced key gap xs) :=
  inferInstanceAs (Decidable (xs.Pairwise _))

/-- What the source has up to a bound, which it may count in or not. -/
def cut (key : α → ℤ) (inclusive : Bool) (bound : ℤ) (xs : List α) : List α :=
  xs.filter fun a => decide (key a < bound) || (inclusive && decide (key a = bound))

def newest (size : ℕ) (xs : List α) : List α := xs.drop (xs.length - size)

def window (key : α → ℤ) (start stop : ℤ) (xs : List α) : List α :=
  xs.filter fun a => decide (start ≤ key a) && decide (key a < stop)

/-- The pages one after the other, the newest first. -/
def pageBack (key : α → ℤ) (page : ℤ → List α) (start : ℤ) : ℕ → ℤ → List α
  | 0, _ => []
  | pages + 1, cursor =>
    match page cursor with
    | [] => []
    | a :: later =>
      if key a ≤ start then a :: later
      else (a :: later) ++ pageBack key page start pages (key a - 1)

/-! ### Bounds -/

theorem cut_le (inclusive : Bool) (bound : ℤ) (xs : List α) :
    ∀ a ∈ cut key inclusive bound xs, key a ≤ bound := by
  intro a member
  have below := (List.mem_filter.mp member).2
  simp only [Bool.or_eq_true, Bool.and_eq_true, decide_eq_true_eq] at below
  omega

theorem cut_cut (inclusive : Bool) {low high : ℤ} (below : low < high) (xs : List α) :
    cut key inclusive low (cut key inclusive high xs) = cut key inclusive low xs := by
  rw [cut, cut, List.filter_filter]
  apply List.filter_congr
  intro a _
  rw [Bool.eq_iff_iff]
  cases inclusive with
  | false =>
    simp
    omega
  | true =>
    simp
    omega

theorem Spaced.cut {gap bound : ℤ} {inclusive : Bool} {xs : List α}
    (spaced : Spaced key gap xs) : Spaced key gap (cut key inclusive bound xs) :=
  List.Pairwise.filter _ spaced

theorem Spaced.before {gap : ℤ} {older later : List α} {a : α}
    (spaced : Spaced key gap (older ++ a :: later)) : ∀ b ∈ older, key b + gap ≤ key a :=
  fun b member => (List.pairwise_append.mp spaced).2.2 b member a (List.mem_cons_self ..)

theorem Spaced.least {gap : ℤ} (forward : 0 ≤ gap) {older later : List α} {a : α}
    (spaced : Spaced key gap (older ++ a :: later)) : ∀ b ∈ a :: later, key a ≤ key b := by
  intro b member
  rcases List.mem_cons.mp member with here | beyond
  · rw [here]
  · have near := List.rel_of_pairwise_cons (List.pairwise_append.mp spaced).2.1 beyond
    omega

/-- Asking below an element gives what stands before it, whether the bound counts or not. -/
theorem cut_before {gap : ℤ} (apart : 2 ≤ gap) (inclusive : Bool) {older later : List α} {a : α}
    (spaced : Spaced key gap (older ++ a :: later)) :
    cut key inclusive (key a - 1) (older ++ a :: later) = older := by
  have kept : cut key inclusive (key a - 1) older = older := by
    apply List.filter_eq_self.mpr
    intro b member
    have near := spaced.before b member
    simp only [Bool.or_eq_true, decide_eq_true_eq]
    left
    omega
  have dropped : cut key inclusive (key a - 1) (a :: later) = [] := by
    apply List.filter_eq_nil_iff.mpr
    intro b member
    have above := spaced.least (by omega) b member
    simp only [Bool.or_eq_true, Bool.and_eq_true, decide_eq_true_eq]
    omega
  simp only [cut, List.filter_append] at kept dropped ⊢
  rw [kept, dropped, List.append_nil]

theorem newest_split (size : ℕ) (xs : List α) :
    xs.take (xs.length - size) ++ newest size xs = xs := List.take_append_drop ..

/-- A page that leaves elements out is full. -/
theorem newest_full (size : ℕ) (xs : List α) :
    xs.take (xs.length - size) = [] ∨ (newest size xs).length = size := by
  by_cases more : size ≤ xs.length
  · right
    rw [newest, List.length_drop]
    omega
  · left
    rw [Nat.sub_eq_zero_of_le (by omega), List.take_zero]

theorem newest_eq_nil {size : ℕ} (positive : 0 < size) {xs : List α}
    (empty : newest size xs = []) : xs = [] := by
  have count := List.drop_eq_nil_iff.mp empty
  apply List.length_eq_zero_iff.mp
  omega

/-! ### The walk -/

section Walk

variable {gap start stop : ℤ} {size : ℕ} {inclusive : Bool} {xs : List α}

/-- Older elements stay unread only if they are before the window, or when `count` elements
of it have been read. -/
def Covered (key : α → ℤ) (start : ℤ) (count : ℕ) (older read : List α) : Prop :=
  (∀ a ∈ older, key a < start) ∨ read.length = count ∧ ∀ a ∈ read, start < key a

/-- One more page in front of what the others read. -/
theorem Covered.page {older read later : List α} {a : α} {count : ℕ} (apart : 2 ≤ gap)
    (covered : Covered key start count older read)
    (spaced : Spaced key gap ((older ++ read) ++ a :: later)) (above : start < key a)
    (full : older ++ read = [] ∨ (a :: later).length = size) :
    Covered key start (count + size) older (read ++ a :: later) := by
  rcases covered with before | ⟨enough, inside⟩
  · exact Or.inl before
  · rcases full with last | full
    · left
      rw [(List.append_eq_nil_iff.mp last).1]
      simp
    · right
      constructor
      · rw [List.length_append, enough, full]
      · intro b member
        rcases List.mem_append.mp member with earlier | here
        · exact inside b earlier
        · have least := spaced.least (by omega) b here
          omega

/-- A walk reads the newest elements below its cursor, in pages that are full while there is
more to read. -/
theorem pageBack_suffix (start : ℤ) (inclusive : Bool) (apart : 2 ≤ gap)
    (spaced : Spaced key gap xs) (positive : 0 < size) (pages : ℕ) (cursor : ℤ) :
    ∃ older read, cut key inclusive cursor xs = older ++ read ∧
      (pageBack key (fun bound => newest size (cut key inclusive bound xs)) start pages
        cursor).Perm read ∧
      Covered key start (pages * size) older read := by
  induction pages generalizing cursor with
  | zero =>
    -- no page left: everything below the cursor is unread
    refine ⟨cut key inclusive cursor xs, [], by simp, by simp [pageBack], Or.inr ?_⟩
    simp
  | succ pages ih =>
    have split := newest_split size (cut key inclusive cursor xs)
    have full := newest_full size (cut key inclusive cursor xs)
    have below : Spaced key gap (cut key inclusive cursor xs) := spaced.cut
    cases page : newest size (cut key inclusive cursor xs) with
    | nil =>
      refine ⟨[], [], newest_eq_nil positive page, by simp [pageBack, page], Or.inl ?_⟩
      simp
    | cons a later =>
      rw [page] at split full
      rw [← split] at below
      by_cases reached : key a ≤ start
      · refine ⟨_, a :: later, split.symm, by simp [pageBack, page, reached], Or.inl ?_⟩
        intro b member
        have near := below.before b member
        omega
      · obtain ⟨older, read, next, same, covered⟩ := ih (key a - 1)
        have met : key a ≤ cursor := by
          apply cut_le inclusive cursor xs
          rw [← split]
          simp
        have lower : key a - 1 < cursor := by omega
        -- the next page starts where this one ended
        rw [← cut_cut inclusive lower, ← split, cut_before apart inclusive below] at next
        rw [next] at split below full
        refine ⟨older, read ++ a :: later, ?_, ?_, ?_⟩
        · rw [← split, List.append_assoc]
        · simp only [pageBack, page, reached, if_false]
          exact List.perm_append_comm.trans (same.append_right _)
        · rw [Nat.succ_mul]
          exact covered.page apart below (not_le.mp reached) full

/-- Of spaced elements up to `stop`, at most one is at `stop` itself. -/
theorem window_length (apart : 0 < gap) (spaced : Spaced key gap xs)
    (below : ∀ a ∈ xs, key a ≤ stop) (inside : ∀ a ∈ xs, start < key a) :
    xs.length ≤ (window key start stop xs).length + 1 := by
  -- all but the last element are below another one
  rcases List.eq_nil_or_concat xs with empty | ⟨front, last, split⟩
  · simp [empty]
  · subst split
    rw [List.concat_eq_append] at spaced below inside ⊢
    have whole : window key start stop front = front := by
      apply List.filter_eq_self.mpr
      intro a member
      have near := spaced.before a member
      have lower := inside a (List.mem_append_left _ member)
      have upper := below last (by simp)
      simp only [Bool.and_eq_true, decide_eq_true_eq]
      omega
    have more : front.length ≤ (window key start stop (front ++ [last])).length := by
      rw [window, List.filter_append, List.length_append]
      rw [window] at whole
      rw [whole]
      omega
    simp only [List.length_append, List.length_singleton]
    omega

theorem window_cut (inclusive : Bool) (xs : List α) :
    window key start stop (cut key inclusive stop xs) = window key start stop xs := by
  rw [window, cut, List.filter_filter]
  apply List.filter_congr
  intro a _
  rw [Bool.eq_iff_iff]
  cases inclusive with
  | false => simp
  | true =>
    simp
    omega

/-- A walk reads the whole window, if that has fewer elements than its pages can hold. -/
theorem pageBack_window (inclusive : Bool) (apart : 2 ≤ gap) (spaced : Spaced key gap xs)
    (positive : 0 < size) {pages : ℕ} (fewer : (window key start stop xs).length < pages * size) :
    (window key start stop (pageBack key
      (fun bound => newest size (cut key inclusive bound xs)) start pages stop)).Perm
      (window key start stop xs) := by
  obtain ⟨older, read, split, same, covered⟩ :=
    pageBack_suffix start inclusive apart spaced positive pages stop
  have under : ∀ a ∈ cut key inclusive stop xs, key a ≤ stop := cut_le inclusive stop xs
  have below : Spaced key gap (older ++ read) := by
    rw [← split]
    exact spaced.cut
  rw [← window_cut inclusive xs, split] at fewer ⊢
  rw [split] at under
  -- what is left unread has no part in the window
  have unread : window key start stop older = [] := by
    apply List.filter_eq_nil_iff.mpr
    intro a member within
    simp only [Bool.and_eq_true, decide_eq_true_eq] at within
    rcases covered with before | ⟨count, inside⟩
    · have earlier := before a member
      omega
    · -- the pages are full of the window, and one element more does not fit the count
      have last := fun b here => under b (List.mem_append_right older here)
      have enough := window_length (by omega) (List.pairwise_append.mp below).2.1 last inside
      have one : 0 < (window key start stop older).length := by
        apply List.length_pos_of_mem
        exact List.mem_filter.mpr ⟨member, by simp [within]⟩
      rw [window, List.filter_append, List.length_append] at fewer
      rw [window] at enough one
      omega
  rw [window, window, List.filter_append]
  rw [window] at unread
  rw [unread, List.nil_append]
  exact same.filter _

end Walk

/-! ### Putting pages together -/

/-- `sort_by_key`. -/
def sortByKey (key : α → ℤ) (xs : List α) : List α :=
  xs.mergeSort fun a b => decide (key a ≤ key b)

/-- `dedup_by_key`: of neighbours with one key the first stays. -/
def dedupByKey (key : α → ℤ) (xs : List α) : List α := xs.destutter fun a b => key a ≠ key b

theorem sortByKey_ascending (xs : List α) :
    (sortByKey key xs).Pairwise fun a b => key a ≤ key b := by
  have ordered : (sortByKey key xs).Pairwise fun a b => decide (key a ≤ key b) = true := by
    apply List.pairwise_mergeSort
    · intro a b c first second
      simp only [decide_eq_true_eq] at *
      omega
    · intro a b
      simp only [Bool.or_eq_true, decide_eq_true_eq]
      omega
  simpa using ordered

theorem rising_of_differ {xs : List α} (ordered : xs.Pairwise fun a b => key a ≤ key b)
    (differ : xs.IsChain fun a b => key a ≠ key b) : xs.Pairwise fun a b => key a < key b := by
  induction xs with
  | nil => exact List.Pairwise.nil
  | cons a rest ih =>
    cases rest with
    | nil => exact List.pairwise_singleton ..
    | cons b rest =>
      obtain ⟨first, later⟩ := List.isChain_cons_cons.mp differ
      have rising := ih ordered.tail later
      refine List.pairwise_cons.mpr ⟨?_, rising⟩
      have next := List.rel_of_pairwise_cons ordered (List.mem_cons_self ..)
      intro c member
      rcases List.mem_cons.mp member with here | beyond
      · rw [here]
        omega
      · have further := List.rel_of_pairwise_cons rising beyond
        omega

/-- Whatever comes in, sorting and removing doubles leaves one element a key. -/
theorem dedupByKey_rising (xs : List α) :
    (dedupByKey key (sortByKey key xs)).Pairwise fun a b => key a < key b := by
  apply rising_of_differ
  · exact (sortByKey_ascending xs).sublist (List.destutter_sublist ..)
  · exact List.isChain_destutter ..

theorem Spaced.key_injective {gap : ℤ} (apart : 0 < gap) {xs : List α}
    (spaced : Spaced key gap xs) : ∀ a ∈ xs, ∀ b ∈ xs, key a = key b → a = b := by
  have distinct : (xs.map key).Nodup := by
    apply List.pairwise_map.mpr
    apply List.Pairwise.imp _ spaced
    intro a b near same
    omega
  intro a left b right same
  exact List.inj_on_of_nodup_map distinct left right same

/-- However the elements of a spaced list are mixed up, sorting restores it. -/
theorem sortByKey_spaced {gap : ℤ} (apart : 0 < gap) {xs ys : List α}
    (spaced : Spaced key gap ys) (same : xs.Perm ys) : sortByKey key xs = ys := by
  have mixed := (List.mergeSort_perm xs fun a b => decide (key a ≤ key b)).trans same
  have sorted : (sortByKey key xs).Pairwise fun a b => key a ≤ key b := sortByKey_ascending xs
  have ascending : ys.Pairwise fun a b => key a ≤ key b := by
    apply List.Pairwise.imp _ spaced
    intro a b near
    omega
  apply List.Perm.eq_of_pairwise _ sorted ascending mixed
  intro a b left right below above
  apply spaced.key_injective apart a (mixed.mem_iff.mp left) b right
  omega

theorem dedupByKey_spaced {gap : ℤ} (apart : 0 < gap) {xs : List α}
    (spaced : Spaced key gap xs) : dedupByKey key xs = xs := by
  apply List.destutter_of_isChain
  apply List.Pairwise.isChain
  apply List.Pairwise.imp _ spaced
  intro a b near
  omega

end Machine
