import PswapSolver.Accounting
import PswapSolver.Matcher
import PswapSolver.Settlement

/-! # Direct matching settles

Without triangular matching, the batch the matcher builds from an engine run passes the
executor's solvency check.  `Accounting` gives that the flow of every token over the
whole book is at least the protocol's balance, hence not negative.  The executor sums
over the notes of the batch instead, which are the filled orders; the two sums agree
because an order the run did not fill settles nothing.

Two things about the Miden libraries are assumed: the raw bytes kept for an order parse
to its terms, and executing a note pays exactly the fill and leaves as remainder what
the fill does not release (`PaysExactly`).
-/
namespace PswapSolver
variable {Note : Type}

/-- **One note**: the flows the executor computes for a filled note are what the order's
settlement in one piece adds. -/
theorem noteFlow_eq_settled {api : NoteApi Note} (hpays : PaysExactly api) {filled : FilledNote}
    (x : ExecutedNote api filled) {o : Order}
    (hraw : ParsesTo api filled.rawNoteData o.toOrderTerms)
    (hfill : filled.requestedFilled = o.requestedFilled) (t : TokenId) :
    noteFlow x.pswap x.payback x.remainder t = OrderBook.settled t o := by
  obtain ⟨note, hread, hterms⟩ := hraw
  cases Option.some.inj (hread.symm.trans x.read)
  obtain ⟨p, hp, hoff, hreq, hoffered, hrequested⟩ := orderFromNote_some hterms
  cases Option.some.inj (hp.symm.trans x.parsed)
  obtain ⟨hpayback, hremainder⟩ := hpays hterms x.executed
  have hle : o.offered * o.requestedFilled / o.requested ≤ o.offered := by
    rw [← o.offeredFor_eq o.requestedFilled_le]
    exact o.offeredFor_le_offered o.requestedFilled_le
  unfold noteFlow OrderBook.settled
  rw [hpayback, hremainder, hfill, ← hoff, ← hreq, ← hoffered]
  rw [if_congr (eq_comm (a := t)) rfl rfl, if_congr (eq_comm (a := t)) rfl rfl]
  split <;> omega

section Batch
variable {b : OrderBook} {p : Progress} {rawNotes : FiniteMap OrderId Bytes}
  {arrivals : FiniteMap OrderId Nat} {nowUnix : Nat}

/-- What the settlement of the order under an id adds. -/
def settledAt (book : OrderBook) (t : TokenId) (id : OrderId) : Int :=
  ((book.orders.lookup id).map (OrderBook.settled t)).getD 0

/-- With the raw bytes of every order at hand, no filled order is missing in the batch. -/
theorem filledNotes_noteId (b : OrderBook) (arrivals : FiniteMap OrderId Nat) (nowUnix : Nat)
    {ids : List OrderId} (hraw : ∀ id ∈ ids, id ∈ rawNotes) :
    (filledNotes b rawNotes arrivals nowUnix ids).map FilledNote.noteId = ids := by
  induction ids with
  | nil => rfl
  | cons id ids ih =>
    obtain ⟨raw, hid⟩ := Finmap.mem_iff.mp (hraw id (List.mem_cons_self ..))
    have hrest := ih fun i hi => hraw i (List.mem_cons_of_mem _ hi)
    rw [filledNotes] at hrest ⊢
    simp only [List.filterMap_cons, hid, Option.map_some, List.map_cons, hrest]

/-- **The filled orders carry the whole flow** of a run over unfilled orders. -/
theorem sum_filled_eq_flow (hadv : (runStart b).Advance p)
    (hfresh : ∀ {id o}, b.orders.lookup id = some o → o.requestedFilled = 0)
    {ids : List OrderId} (hnodup : ids.Nodup) (henum : ids.toFinset = p.filledOrders)
    (t : TokenId) : (ids.map (settledAt p.book t)).sum = p.book.flow t := by
  have hsub : p.filledOrders ⊆ p.book.orders.keys := by
    intro id hid
    rw [Finmap.mem_keys, hadv.mem_orders]
    exact (hadv.filled_visible hid (Finset.notMem_empty id)).1
  have hrest : ∀ id ∈ p.book.orders.keys, id ∉ p.filledOrders → settledAt p.book t id = 0 := by
    intro id _ hid
    rw [settledAt, hadv.untouched hid]
    cases ho : (runStart b).book.orders.lookup id with
    | none => rfl
    | some o => simp [OrderBook.settled, hfresh ho]
  calc (ids.map (settledAt p.book t)).sum
      = ∑ id ∈ p.filledOrders, settledAt p.book t id := by
        rw [← henum, List.sum_toFinset _ hnodup]
    _ = ∑ id ∈ p.book.orders.keys, settledAt p.book t id := Finset.sum_subset hsub hrest

end Batch

/-- **Direct matching is accounted for exactly, and its batches are solvent.**  For every
reachable book of unfilled orders without balances and every outcome of the engine with
triangular matching disabled: the flow of each token lies between the protocol's balance
and that balance plus the extra matches of the touched orders offering the token; and the
executor does not refuse the batch built from the run as insolvent. -/
theorem direct_matching_settles {b : OrderBook} (hb : b.Reachable)
    (hfresh : ∀ id o, b.orders.lookup id = some o → o.requestedRemaining = o.requested)
    (hbalances : b.protocolBalances = ∅) {p : Progress} (hrun : EngineRun b false p) :
    (∀ t, (p.book.balance t : Int) ≤ p.book.flow t ∧
      p.book.flow t ≤ p.book.balance t + p.extraMatches t) ∧
    ∀ (api : NoteApi Note) (rawNotes : FiniteMap OrderId Bytes) (arrivals : FiniteMap OrderId Nat)
      (nowUnix : Nat) (filledOrders : List OrderId) (order : List TokenId),
      PaysExactly api →
      (∀ id o, b.orders.lookup id = some o →
        ∃ bytes, rawNotes.lookup id = some bytes ∧ ParsesTo api bytes o.toOrderTerms) →
      filledOrders.Nodup → filledOrders.toFinset = p.filledOrders →
      ∀ token deficit, prepareBatchComponents api
        ⟨filledNotes p.book rawNotes arrivals nowUnix filledOrders⟩ order ≠
          .error (.insolvent token deficit) := by
  have hunfilled : ∀ {id o}, b.orders.lookup id = some o → o.requestedFilled = 0 := by
    intro id o ho
    rw [Order.requestedFilled, hfresh id o ho, Nat.sub_self]
  have hbal : ∀ t, b.balance t = 0 := by
    intro t
    rw [OrderBook.balance, hbalances]
    rfl
  have hstep := hb.inv.inStep
  obtain ⟨-, hadv⟩ := hrun.advance hstep
  have hacc : p.Accounted := by
    cases hrun with
    | direct _ => exact Progress.accounted_runDirectMatching hstep hunfilled hbal _
  refine ⟨fun t => ⟨hacc.balance_le t, hacc.flow_le t⟩, ?_⟩
  intro api rawNotes arrivals nowUnix ids order hpays hraw hnodup henum token deficit
  have hknown : ∀ id ∈ ids, ∃ o o', b.orders.lookup id = some o ∧
      p.book.orders.lookup id = some o' ∧ o'.toOrderTerms = o.toOrderTerms := by
    intro id hid
    have hfilled : id ∈ p.filledOrders := henum ▸ List.mem_toFinset.mpr hid
    have hmem := (hadv.filled_visible hfilled (Finset.notMem_empty id)).1
    obtain ⟨o, ho⟩ := Finmap.mem_iff.mp hmem
    obtain ⟨o', ho'⟩ := Finmap.mem_iff.mp (hadv.mem_orders.mpr hmem)
    exact ⟨o, o', ho, ho', (hadv.terms ho ho').1⟩
  refine prepareBatchComponents_ne_insolvent (w := fun filled t => settledAt p.book t filled.noteId)
    ?_ ?_ order token deficit
  · intro filled hfilled x t
    obtain ⟨hid, hbytes, hfill⟩ := mem_filledNotes hfilled
    obtain ⟨o, o', ho, ho', hterms⟩ := hknown _ hid
    obtain ⟨bytes, hbytes', hparse⟩ := hraw _ o ho
    cases Option.some.inj (hbytes.symm.trans hbytes')
    rw [ho'] at hfill
    rw [settledAt, ho']
    exact noteFlow_eq_settled hpays x (hterms ▸ hparse) hfill t
  · intro t
    have hids : ∀ id ∈ ids, id ∈ rawNotes := fun id hid => by
      obtain ⟨o, -, ho, -⟩ := hknown id hid
      obtain ⟨bytes, hbytes, -⟩ := hraw id o ho
      exact FiniteMap.mem_of_lookup hbytes
    have hsum : (filledNotes p.book rawNotes arrivals nowUnix ids).map
        (fun filled => settledAt p.book t filled.noteId) = ids.map (settledAt p.book t) := by
      have hnotes := filledNotes_noteId p.book arrivals nowUnix hids
      rw [← congrArg (List.map (settledAt p.book t)) hnotes, List.map_map]
      rfl
    rw [hsum, sum_filled_eq_flow hadv hunfilled hnodup henum]
    have := hacc.balance_le t
    omega

/-! ### An instance

Two orders that cross, and a library whose notes behave as assumed. -/

/-- The raw bytes of both orders. -/
def crossingBytes : FiniteMap OrderId Bytes := Finmap.insert 2 [2] (Finmap.insert 1 [1] ∅)

theorem direct_matching_settles_crossing :
    let p := runDirectMatching [(1, 2)] (runStart crossingBook)
    (∀ t, (p.book.balance t : Int) ≤ p.book.flow t ∧
      p.book.flow t ≤ p.book.balance t + p.extraMatches t) ∧
    ∀ token deficit, prepareBatchComponents exactApi
      ⟨filledNotes p.book crossingBytes ∅ 0 p.filledOrders.toList⟩ [1, 2] ≠
        .error (.insolvent token deficit) := by
  have hfresh : ∀ id o, crossingBook.orders.lookup id = some o →
      o.requestedRemaining = o.requested := fun id o ho => (crossingBook_lookup ho).2 ▸ rfl
  obtain ⟨hflow, hsolvent⟩ := @direct_matching_settles OrderTerms _ crossingBook_reachable
    hfresh rfl _ crossingBook_run
  refine ⟨hflow, hsolvent exactApi crossingBytes ∅ 0 _ [1, 2] exactApi_paysExactly ?_
    (Finset.nodup_toList _) (Finset.toList_toFinset _)⟩
  intro id o ho
  obtain ⟨hid, rfl⟩ := crossingBook_lookup ho
  rcases hid with rfl | rfl
  · exact ⟨[1], by decide, crossingTerms 1, rfl, exactApi_orderFromNote _⟩
  · exact ⟨[2], by decide, crossingTerms 2, rfl, exactApi_orderFromNote _⟩

end PswapSolver
