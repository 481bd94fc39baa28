import InodeVolume.Proofs.CheckedIndex

/-!
# Extending an index, checked

A machine extends the index of a record with one counter, the number of the next piece, which goes through the
three tiers. In each of them it is compared with what the tiers hold before what they hold is taken off it. The
doubly indirect tier has a loop inside a loop: the inner one goes on while the counter stays below the same
inner table.

Each loop comes to what the unchecked action makes of the pieces that are left, one piece after the other, and
ends in one round more than a table has words. So extending an index never panics, from whatever length a record
claims to have to any longer one that is allowed (`expanded_follows`).
-/

namespace InodeVolume

namespace Checked

/-! ## Loops -/

/-- An action on the disk alone. -/
def onGrowth {α : Type} (x : Checked Error Disk α) : Checked Error Growth α := fun g =>
  let ⟨disk, record, supply⟩ := g
  match x disk with
  | .ok a disk => .ok a ⟨disk, record, supply⟩
  | .error e disk => .error e ⟨disk, record, supply⟩

/-- The next piece gets its pointer in the record. -/
def fillDirect (last i : Nat) : Checked Error Growth (Round Nat Nat) :=
  if i < min last directCount then do
    let b ← plain Growth.next
    place directCount i
    plain (Growth.change fun r => { r with direct := r.direct.setIfInBounds i b })
    let i ← add i 1
    pure (.again i)
  else pure (.done i)

/-- Piece `i` gets its pointer in a table, at the place that `place?` gives it there, if it gives one. -/
def fillTable (place? : Nat → Checked Error Growth (Option Nat)) (s : Block × Nat) :
    Checked Error Growth (Round (Block × Nat) (Block × Nat)) := do
  match ← place? s.2 with
  | none => pure (.done s)
  | some k =>
    let b ← plain Growth.next
    place blockWords k
    let i ← add s.2 1
    pure (.again (s.1.setWord k b, i))

/-- The place of piece `i` in the singly indirect table, if it is below `last` and the table has one. -/
def singlePlace {ε σ : Type} (last i : Nat) : Checked ε σ (Option Nat) :=
  if i < min last singleReach then do
    let k ← sub i directCount
    pure (some k)
  else pure none

/-- The place of piece `i` in the inner table at word `cell`, if it is below `last` and one of its pieces. -/
def innerPlace {ε σ : Type} (last cell i : Nat) : Checked ε σ (Option Nat) :=
  if i < last then do
    let k ← sub i singleReach
    pure (if k / blockWords = cell then some (k % blockWords) else none)
  else pure none

/-! ## Tiers -/

/-- The singly indirect table: one that is new, or the one that is there. -/
def openSingle (first : Nat) : Checked Error Growth Block :=
  if first = directCount then do
    let b ← plain Growth.next
    plain (Growth.change fun r => { r with single := b })
    pure Block.zero
  else do
    let r ← plain Growth.current
    onGrowth (readTable r.single)

/-- Extends the singly indirect tier; answers the next piece. -/
def extendSingle (first last : Nat) : Checked Error Growth Nat := do
  let table ← openSingle first
  let s ← rounds (fillTable (singlePlace last)) (blockWords + 1) (table, first)
  let r ← plain Growth.current
  onGrowth (writeTable r.single s.1)
  pure s.2

/-- The inner table for place `k` of the doubly indirect tier, with the outer table that points at it. -/
def openInner (outer : Block) (k : Nat) : Checked Error Growth (Block × Block) :=
  if k % blockWords = 0 then do
    let b ← plain Growth.next
    place blockWords (k / blockWords)
    pure (outer.setWord (k / blockWords) b, Block.zero)
  else do
    let id ← item blockWords outer.word (k / blockWords)
    let table ← onGrowth (readTable id)
    pure (outer, table)

/-- Extends the next inner table. -/
def extendInner (last : Nat) (s : Block × Nat) : Checked Error Growth (Round (Block × Nat) Block) :=
  if s.2 < last then do
    let k ← sub s.2 singleReach
    let opened ← openInner s.1 k
    let t ← rounds (fillTable (innerPlace last (k / blockWords))) (blockWords + 1) (opened.2, s.2)
    let id ← item blockWords opened.1.word (k / blockWords)
    onGrowth (writeTable id t.1)
    pure (.again (opened.1, t.2))
  else pure (.done s.1)

/-- The outer table: one that is new, or the one that is there. -/
def openDouble (first : Nat) : Checked Error Growth Block :=
  if first = singleReach then do
    let b ← plain Growth.next
    plain (Growth.change fun r => { r with double := b })
    pure Block.zero
  else do
    let r ← plain Growth.current
    onGrowth (readTable r.double)

/-- Extends the doubly indirect tier. -/
def extendDouble (first last : Nat) : Checked Error Growth Unit := do
  let outer ← openDouble first
  let outer ← rounds (extendInner last) (blockWords + 1) (outer, first)
  let r ← plain Growth.current
  onGrowth (writeTable r.double outer)

/-- Extends the singly indirect tier, unless it is full. -/
def extendToSingle (first last : Nat) : Checked Error Growth Nat :=
  if first < singleReach then extendSingle first last else pure first

/-- Extends the two tiers behind the record. -/
def extendRest (first last : Nat) : Checked Error Growth Unit := do
  let first ← extendToSingle first last
  if first = last then pure () else extendDouble first last

/-- Extends the index of a record of one length for another one. -/
def extend (length size : UInt32) : Checked Error Growth Unit := do
  let first ← dataBlocks length.toNat
  let last ← dataBlocks size.toNat
  if maxBlocks < last then fail .fileTooLarge
  else
    let first ← rounds (fillDirect last) (directCount + 1) first
    if first = last then pure () else extendRest first last

/-- The record with its index extended for `size` bytes and that length. -/
def expanded (r : Record) (size : UInt32) (supply : List UInt32) : Checked Error Disk Record := fun disk =>
  match extend r.length size ⟨disk, r, supply⟩ with
  | .ok () g => .ok { g.record with length := size } g.disk
  | .error e g => .error e g.disk

/-! ## What the loops come to -/

theorem onGrowth_follows {α : Type} {g : Checked Error Disk α} {x : DiskM α} (h : Follows g x) :
    Follows (onGrowth g) (Growth.onDisk x) := by
  rintro ⟨disk, record, supply⟩ -
  obtain ⟨heq, -⟩ := h disk trivial
  simp only [onGrowth, Growth.onDisk, plain, heq]
  cases x disk <;> exact ⟨rfl, trivial, trivial⟩

/-- The pieces up to `stop` get their pointers in the record, and the counter ends there. -/
theorem fillDirect_agrees (first last : Nat) :
    Agrees .any (fun i => i = max first (min last directCount))
      (rounds (fillDirect last) (directCount + 1) first)
      (Growth.fillDirect first (min last directCount - first) >>= fun _ =>
        pure (max first (min last directCount))) := by
  have hdirect : directCount = 123 := rfl
  generalize hend : max first (min last directCount) = stop
  refine Agrees.rounds (f := fun i => Growth.fillDirect i (min last directCount - i) >>= fun _ => pure stop)
    (fun i => max i (min last directCount) = stop) (fun i => min last directCount - i) ?_ hend (by omega)
  intro i go hi ih
  -- The counter is where the tier ends, or one of the pieces of the tier is left for it.
  rw [fillDirect]
  by_cases hmore : i < min last directCount
  · obtain ⟨n, hn⟩ := Nat.exists_eq_add_of_lt hmore
    have hleft : min last directCount - i = n + 1 := by omega
    have hnext := ih (i + 1) (by omega) (by omega)
    rw [show min last directCount - (i + 1) = n by omega] at hnext
    simp only [if_pos hmore, hleft, Growth.fillDirect, bind_assoc, pure_bind, follow_again]
    refine .bind (Follows.plain _) fun b _ => .check (place_eq (by omega)) ?_
    refine .bind (Follows.plain _) fun _ _ => .check (add_eq (lt_size (by omega))) ?_
    exact hnext
  · obtain rfl : i = stop := by omega
    rw [if_neg hmore, show min last directCount - i = 0 by omega, pure_bind, follow_done]
    exact .pure rfl

/-- The next `count` pieces, whose places in the table follow each other, get their pointers there. -/
theorem fillTable_agrees (place? : Nat → Checked Error Growth (Option Nat)) {count rest : Nat}
    (hrest : count < rest) :
    ∀ (first start : Nat) (table : Block), (∀ j, j < count → place? (first + j) = pure (some (start + j))) →
      place? (first + count) = pure none → start + count ≤ blockWords → first + count < UInt64.size →
      Agrees .any (fun s => s.2 = first + count) (rounds (fillTable place?) rest (table, first))
        (Growth.fillTable table start count >>= fun table => pure (table, first + count)) := by
  -- By induction on the pieces that are left. Each takes one round, and one more round finds that there are
  -- no others, so more rounds than pieces are enough.
  induction count generalizing rest with
  | zero =>
    intro first start table _ hend _ _
    obtain ⟨n, rfl⟩ := Nat.exists_eq_add_of_lt hrest
    simp only [Nat.add_zero] at hend
    simp only [rounds, fillTable, hend, Growth.fillTable, pure_bind, follow_done]
    exact .pure rfl
  | succ count ih =>
    intro first start table hin hend hfit hsize
    obtain ⟨n, rfl⟩ := Nat.exists_eq_add_of_lt hrest
    have hfirst := hin 0 (Nat.succ_pos _)
    simp only [Nat.add_zero] at hfirst
    simp only [rounds, fillTable, hfirst, Growth.fillTable, bind_assoc, pure_bind]
    refine .bind (Follows.plain _) fun b _ => .check (place_eq (by omega)) (.check (add_eq (by omega)) ?_)
    have hnext := ih (show count < count + 1 + n by omega) (first + 1) (start + 1) (table.setWord start b) (fun j hj => ?_)
      (by rw [← hend]; congr 1; omega) (by omega) (by omega)
    · rw [show first + (count + 1) = first + 1 + count by omega]
      exact hnext
    · rw [show first + 1 + j = first + (j + 1) by omega, show start + 1 + j = start + (j + 1) by omega]
      exact hin (j + 1) (by omega)

/-! ## The tiers -/

/-- The places in the singly indirect table follow each other up to its end or to the last piece. -/
theorem fillSingle_agrees {first last : Nat} (hlow : directCount ≤ first) (hle : first ≤ min last singleReach)
    (table : Block) : Agrees .any (fun i => i = min last singleReach)
      (do
        let s ← rounds (fillTable (singlePlace last)) (blockWords + 1) (table, first)
        let r ← plain Growth.current
        onGrowth (writeTable r.single s.1)
        pure s.2)
      (do
        let table ← Growth.fillTable table (first - directCount) (min last singleReach - first)
        let r ← Growth.current
        Growth.onDisk (DiskM.writeBlock r.single.toNat table)
        pure (min last singleReach)) := by
  have hreach : singleReach = directCount + blockWords := rfl
  have hlimit : singleReach < UInt64.size := by decide
  have hstop : first + (min last singleReach - first) = min last singleReach := by omega
  have hcount : min last singleReach - first < blockWords + 1 := by omega
  -- Where the rounds end is known beforehand: at the end of the tier or at the last piece.
  have hfilled := fillTable_agrees (singlePlace last) hcount first (first - directCount) table ?_ ?_ (by omega)
    (by omega)
  · rw [hstop] at hfilled
    have hwritten (s : Block × Nat) : Follows
        (plain Growth.current >>= fun r => onGrowth (writeTable r.single s.1))
        (Growth.current >>= fun r => Growth.onDisk (DiskM.writeBlock r.single.toNat s.1)) :=
      .bind (Follows.plain _) fun r _ => onGrowth_follows (writeTable_follows _ _)
    have hall := hfilled.bind (Q := fun i => i = min last singleReach) fun s hs =>
      (hwritten s).bind (k := fun _ => pure s.2) (f := fun _ => pure s.2) fun _ _ => .pure hs
    simpa only [bind_assoc, pure_bind] using hall
  · intro j hj
    rw [singlePlace, if_pos (by omega), sub_eq (by omega), pure_bind, Nat.sub_add_comm hlow]
  · rw [singlePlace, if_neg (by omega)]

/-- The singly indirect tier is extended up to its end or to the last piece. -/
theorem extendSingle_agrees {first last : Nat} (hlow : directCount ≤ first) (hle : first ≤ min last singleReach) :
    Agrees .any (fun i => i = min last singleReach) (extendSingle first last)
      (Growth.extendSingle first last >>= fun _ => pure (min last singleReach)) := by
  have hrest := fillSingle_agrees hlow hle
  unfold extendSingle Growth.extendSingle openSingle
  by_cases hnew : first = directCount
  · simp only [if_pos hnew, bind_assoc, pure_bind]
    exact .bind (Follows.plain _) fun b _ => .bind (Follows.plain _) fun _ _ => hrest Block.zero
  · simp only [if_neg hnew, bind_assoc]
    refine .bind (Follows.plain _) fun r _ => .bind (onGrowth_follows (readTable_follows _)) fun table _ => ?_
    exact hrest table

/-- The places in one inner table follow each other up to its end or to the last piece. -/
theorem innerPlace_eq {ε σ : Type} {last i j cell start : Nat} (hcell : i = singleReach + cell * blockWords + start)
    (hfit : start + j ≤ blockWords) (hle : i + j ≤ last) : (innerPlace last cell (i + j) : Checked ε σ (Option Nat)) =
      pure (if i + j < last ∧ start + j < blockWords then some (start + j) else none) := by
  have hk : i + j - singleReach = blockWords * cell + (start + j) := by
    rw [Nat.mul_comm]
    omega
  have hpos : 0 < blockWords := by decide
  unfold innerPlace
  by_cases hmore : i + j < last
  · rw [if_pos hmore, sub_eq (by omega), pure_bind, hk, Nat.mul_add_div hpos, Nat.mul_add_mod]
    by_cases hin : start + j < blockWords
    · rw [Nat.div_eq_of_lt hin, Nat.mod_eq_of_lt hin, Nat.add_zero, if_pos rfl, if_pos ⟨hmore, hin⟩]
    · -- The next piece begins another inner table.
      have hnext : start + j = blockWords := by omega
      rw [hnext, Nat.div_self hpos, if_neg (by omega), if_neg (by omega)]
  · rw [if_neg hmore, if_neg (by omega)]

/-- One inner table is extended up to its end or to the last piece, and what follows goes on from there. -/
theorem extendInner_agrees {last i cell start size : Nat} (outer : Block) (hcell : cell < blockWords)
    (hi : i = singleReach + cell * blockWords + start) (hstart : start < blockWords) (hmore : i < last)
    (hsize : size = min (last - i) (blockWords - start)) (hlast : last < UInt64.size)
    {go : Block × Nat → Checked Error Growth Block} {f : Block → GrowthM Block}
    (hgo : ∀ outer, Follows (go (outer, i + size)) (f outer)) :
    Follows (extendInner last (outer, i) >>= follow go) (Growth.extendInner outer ⟨cell, start, size⟩ >>= f) := by
  have hk : i - singleReach = blockWords * cell + start := by
    rw [Nat.mul_comm]
    omega
  have hdiv : (i - singleReach) / blockWords = cell := by
    rw [hk, Nat.mul_add_div (by decide), Nat.div_eq_of_lt hstart, Nat.add_zero]
  have hmod : (i - singleReach) % blockWords = start := by
    rw [hk, Nat.mul_add_mod, Nat.mod_eq_of_lt hstart]
  have hcount : size < blockWords + 1 := by omega
  have hfilled (table : Block) := fillTable_agrees (innerPlace last cell) hcount i start table
    (fun j hj => by rw [innerPlace_eq hi (by omega) (by omega), if_pos (by omega)])
    (by rw [innerPlace_eq hi (by omega) (by omega), if_neg (by omega)]) (by omega) (by omega)
  -- A new inner table and one that is there are filled and stored in the same way.
  have hrest {outer : Block} {id : UInt32} (table : Block) (hid : outer.word cell = id) : Follows
      (do
        let t ← rounds (fillTable (innerPlace last cell)) (blockWords + 1) (table, i)
        let id ← item blockWords outer.word cell
        onGrowth (writeTable id t.1)
        go (outer, t.2))
      (do
        let table ← Growth.fillTable table start size
        Growth.onDisk (DiskM.writeBlock id.toNat table)
        f outer) := by
    have hall := (hfilled table).bind (Q := fun _ => True) (k := fun t => do
        let id ← item blockWords outer.word cell
        onGrowth (writeTable id t.1)
        go (outer, t.2)) (f := fun t => do
        Growth.onDisk (DiskM.writeBlock id.toNat t.1)
        f outer) fun t ht => by
      rw [ht, item_eq hcell, pure_bind, hid]
      exact .bind (onGrowth_follows (writeTable_follows _ _)) fun _ _ => hgo outer
    simpa only [bind_assoc, pure_bind] using hall
  unfold extendInner Growth.extendInner openInner
  simp only [if_pos hmore, bind_assoc, pure_bind, follow_again]
  refine .check (sub_eq (by omega)) ?_
  rw [hdiv, hmod]
  by_cases hnew : start = 0
  · simp only [if_pos hnew, bind_assoc, pure_bind]
    refine .bind (Follows.plain _) fun b _ => .check (place_eq hcell) ?_
    exact hrest Block.zero (by rw [Block.word_setWord _ _ hcell, if_pos rfl])
  · simp only [if_neg hnew, bind_assoc, pure_bind]
    refine .check (item_eq hcell) (.bind (onGrowth_follows (readTable_follows _)) fun table _ => ?_)
    exact hrest table rfl

/-- The inner tables are extended one after the other. There are no more of them than an outer table has
words. -/
theorem extendInners_follows {last i : Nat} (outer : Block) (hlow : singleReach ≤ i) (hle : i ≤ last)
    (hmax : last ≤ maxBlocks) : Follows (rounds (extendInner last) (blockWords + 1) (outer, i))
      ((pieces blockWords (i - singleReach) (last - i)).foldlM Growth.extendInner outer) := by
  have hreach : maxBlocks = singleReach + blockWords * blockWords := rfl
  have hlimit : maxBlocks < UInt64.size := by decide
  have hpos : 0 < blockWords := by decide
  -- Each round ends one inner table, and the cells of the outer one that are left bound the number of
  -- rounds.
  refine Agrees.rounds
    (f := fun s : Block × Nat =>
      (pieces blockWords (s.2 - singleReach) (last - s.2)).foldlM Growth.extendInner s.1)
    (fun s => singleReach ≤ s.2 ∧ s.2 ≤ last)
    (fun s => if s.2 < last then blockWords - (s.2 - singleReach) / blockWords else 0) ?_ ⟨hlow, hle⟩ ?_
  · rintro ⟨outer, i⟩ go ⟨hlow, hle⟩ ih
    dsimp only at hlow hle ih ⊢
    by_cases hmore : i < last
    · have hmod := Nat.mod_lt (i - singleReach) hpos
      have hdiv := Nat.div_add_mod' (i - singleReach) blockWords
      have hcell : (i - singleReach) / blockWords < blockWords := Nat.div_lt_of_lt_mul (by omega)
      rw [pieces_of_pos _ hpos (by omega), List.foldlM_cons]
      generalize hsize : min (last - i) (blockWords - (i - singleReach) % blockWords) = size
      refine extendInner_agrees outer hcell (by omega) hmod hmore hsize.symm (by omega) fun outer' => ?_
      have hnext := ih (outer', i + size) ⟨by omega, by omega⟩ ?_
      · dsimp only at hnext
        rw [Nat.sub_add_comm hlow, Nat.sub_add_eq] at hnext
        exact hnext
      · -- The next piece is the end, or begins the next inner table.
        dsimp only
        rw [if_pos hmore]
        by_cases hend : i + size < last
        · rw [if_pos hend]
          simp only [blockWords] at *
          omega
        · rw [if_neg hend]
          omega
    · rw [show last - i = 0 by omega, pieces_zero]
      simp only [extendInner, if_neg hmore, pure_bind, follow_done]
      exact .pure trivial
  · dsimp only
    split
    · exact Nat.lt_succ_of_le (Nat.sub_le _ _)
    · exact Nat.succ_pos _

/-- The doubly indirect tier is extended up to the last piece. -/
theorem extendDouble_follows {first last : Nat} (hlow : singleReach ≤ first) (hle : first ≤ last)
    (hmax : last ≤ maxBlocks) : Follows (extendDouble first last) (Growth.extendDouble first last) := by
  -- The outer table is new or read, and then filled and stored in the same way.
  have hrest (outer : Block) : Follows
      (do
        let outer ← rounds (extendInner last) (blockWords + 1) (outer, first)
        let r ← plain Growth.current
        onGrowth (writeTable r.double outer))
      (do
        let outer ← (pieces blockWords (first - singleReach) (last - first)).foldlM Growth.extendInner outer
        Growth.onDisk (DiskM.writeBlock (← Growth.current).double.toNat outer)) :=
    .bind (extendInners_follows outer hlow hle hmax) fun _ _ => .bind (Follows.plain _) fun _ _ =>
      onGrowth_follows (writeTable_follows _ _)
  unfold extendDouble Growth.extendDouble openDouble
  by_cases hnew : first = singleReach
  · simp only [if_pos hnew, bind_assoc, pure_bind]
    exact .bind (Follows.plain _) fun b _ => .bind (Follows.plain _) fun _ _ => hrest Block.zero
  · simp only [if_neg hnew, bind_assoc]
    refine .bind (Follows.plain _) fun r _ => .bind (onGrowth_follows (readTable_follows _)) fun table _ => ?_
    exact hrest table

/-! ## All tiers -/

theorem extendRest_follows {first last : Nat} (hlow : directCount ≤ first) (hle : first ≤ last)
    (hmax : last ≤ maxBlocks) : Follows (extendRest first last)
      ((if first < singleReach then Growth.extendSingle first last else pure ()) >>= fun _ =>
        if max first (min last singleReach) = last then pure ()
        else Growth.extendDouble (max first (min last singleReach)) last) := by
  -- The third tier begins where the second ended, or at once if the second was full before.
  have hdouble {i : Nat} (hi : i = max first (min last singleReach)) :
      Follows (if i = last then pure () else extendDouble i last)
        (if max first (min last singleReach) = last then pure ()
          else Growth.extendDouble (max first (min last singleReach)) last) := by
    rw [← hi]
    exact .ite (fun _ => .pure trivial) fun hne => extendDouble_follows (by omega) (by omega) hmax
  unfold extendRest extendToSingle
  by_cases hmore : first < singleReach
  · rw [if_pos hmore, if_pos hmore]
    have hle : first ≤ min last singleReach := by omega
    have hsingle := (extendSingle_agrees hlow hle).bind (Q := fun _ => True) fun i hi =>
      hdouble (hi.trans (by omega))
    simpa only [bind_assoc, pure_bind] using hsingle
  · rw [if_neg hmore, if_neg hmore]
    simp only [pure_bind]
    exact hdouble (by omega)

/-- Extending the index for a length that is not shorter, whatever the index says of the old one. -/
theorem extend_follows {length size : UInt32} (h : length.toNat ≤ size.toNat) : Follows (extend length size)
    (Growth.extend (Record.dataBlocks length.toNat) (Record.dataBlocks size.toNat)) := by
  have hmono := Record.dataBlocks_mono h
  have hsmall (n : UInt32) : n.toNat < UInt64.size := Nat.lt_trans n.toNat_lt_size (by decide)
  unfold extend
  refine .check (dataBlocks_eq (hsmall _)) (.check (dataBlocks_eq (hsmall _)) ?_)
  generalize Record.dataBlocks length.toNat = first at hmono
  generalize Record.dataBlocks size.toNat = last at hmono
  -- Both refuse what is longer than the largest index before anything is linked.
  by_cases hmax : maxBlocks < last
  · rw [if_pos hmax, Growth.extend, if_pos hmax]
    exact Follows.fail
  rw [if_neg hmax, Growth.extend_eq first (by omega)]
  have hdirect := (fillDirect_agrees first last).bind (Q := fun _ => True)
    (k := fun i => if i = last then pure () else extendRest i last)
    (f := fun i => if i = last then pure () else
      (if i < singleReach then Growth.extendSingle i last else pure ()) >>= fun _ =>
        if max i (min last singleReach) = last then pure ()
        else Growth.extendDouble (max i (min last singleReach)) last) fun i hi =>
    .ite (fun _ => .pure trivial) fun hne => extendRest_follows (by omega) (by omega) (by omega)
  simpa only [bind_assoc, pure_bind] using hdirect

/-- A record is extended for any length that is not shorter than its own. -/
theorem expanded_follows (r : Record) {size : UInt32} (h : r.length.toNat ≤ size.toNat) (supply : List UInt32) :
    Follows (expanded r size supply) (r.expanded size.toNat supply) := by
  intro disk _
  obtain ⟨heq, -⟩ := extend_follows h ⟨disk, r, supply⟩ trivial
  simp only [expanded, Record.expanded, Record.expand, plain, heq]
  cases Growth.extend (Record.dataBlocks r.length.toNat) (Record.dataBlocks size.toNat) ⟨disk, r, supply⟩ with
  | ok u g => exact ⟨by simp, trivial, trivial⟩
  | error e g => exact ⟨rfl, trivial, trivial⟩

end Checked

end InodeVolume
