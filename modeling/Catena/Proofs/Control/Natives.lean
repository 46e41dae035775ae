import Catena.Library.Native
import Catena.Proofs.Control.Pulls
import Catena.Proofs.Typing.Library

/-!
# The library stays at one level

A library function stays at one level of nesting and at one place. It comes to an end in the ordinary
way, or answers with another value to be called in its place, which is no label.
-/

namespace Catena

/-- The ordinary end, or the call of a value that is no label. -/
def Reply.Tame : Reply → Prop
  | .control c => c = .next
  | .enter v => v.Tame

namespace Run

variable {α : Type} {ops : List Op} {r : Reentry} {P : α → Prop}

/-- What ends in the ordinary way. -/
theorem Stable.thenNext {x : Run Unit} (hx : Stable ops x Untold) :
    Stable ops (do x; return .next : Run Reply) Reply.Tame :=
  hx.seq fun _ => .pure rfl

theorem stable_pushNext {v : Value} (tame : v.Tame) :
    Stable ops (do push v; return .next : Run Reply) Reply.Tame :=
  (stable_push tame).thenNext

theorem tame_getD {v? : Option Value} (h : ∀ v, v? = some v → v.Tame) : (v?.getD .nil).Tame := by
  cases v? with
  | none => exact fun _ => nofun
  | some v => exact h v rfl

/-! ## Stack, numbers, types and errors -/

theorem stable_popError : Stable ops popError Untold := by
  apply stable_pop.seq
  intro v
  split
  · exact .askedStore _
  · exact .fail _

theorem stable_errorList (faults : List Fault) : Stable ops (errorList faults) Value.Tame := by
  have all : ∀ f ∈ faults.toArray, True := fun _ _ => trivial
  apply (Stable.arrayMapM (A := fun _ => True) all fun f _ => stable_newError f).bind
  exact fun errors told => stable_listOf _ told

theorem stable_dup : Stable ops dup Reply.Tame := by
  apply stable_pop.bind
  intro v tame
  exact (stable_pushEach (by simp [tame])).thenNext

theorem stable_swap : Stable ops swap Reply.Tame := by
  apply (stable_popN 2).bind
  intro values tame
  exact (stable_pushEach fun v member => tame v (by simpa using member)).thenNext

theorem stable_rot : Stable ops rot Reply.Tame := by
  apply (stable_popN 3).bind
  intro values tame
  refine (stable_pushEach fun v member => tame v (Array.mem_toList_iff.1 ?_)).thenNext
  rcases List.mem_append.1 member with inside | inside
  · exact List.mem_of_mem_drop inside
  · exact List.mem_of_mem_take inside

theorem stable_askStack : Stable ops (ask Thread.stack) fun vs => ∀ v ∈ vs, v.Tame :=
  .ask fun _ orderly => orderly.all.stack

theorem stable_stash : Stable ops stash Reply.Tame := by
  apply stable_askStack.bind
  intro values tame
  apply stable_emptied.seq
  intro _
  apply (stable_listFrom tame).bind
  exact fun list told => stable_pushNext told

theorem stable_depth : Stable ops depth Reply.Tame :=
  (Stable.asked _).seq fun _ => stable_pushNext fun _ => nofun

theorem stable_intOp (op : IntOp) : Stable ops (intOp op) Reply.Tame :=
  stable_popInt.seq fun _ => stable_popInt.seq fun _ => (Stable.orFail fun _ _ => trivial).seq
    (P := Untold) fun _ => stable_pushNext fun _ => nofun

theorem stable_ratioOp (op : RatioOp) : Stable ops (ratioOp op) Reply.Tame :=
  (stable_popAs _ _).seq fun _ => (stable_popAs _ _).seq fun _ => (Stable.orFail fun _ _ => trivial).seq
    (P := Untold) fun _ => stable_pushNext fun _ => nofun

theorem stable_makeRatio : Stable ops makeRatio Reply.Tame :=
  stable_popInt.seq fun _ => stable_popInt.seq fun _ => (Stable.orFail fun _ _ => trivial).seq
    (P := Untold) fun _ => stable_pushNext fun _ => nofun

theorem stable_equal : Stable ops equal Reply.Tame :=
  stable_pop.seq fun _ => stable_pop.seq fun _ => (Stable.askedStore _).seq fun _ =>
    stable_pushNext fun _ => nofun

theorem stable_same : Stable ops same Reply.Tame :=
  stable_pop.seq fun _ => stable_pop.seq fun _ => stable_pushNext fun _ => nofun

theorem stable_order (test : OrderTest) : Stable ops (order test) Reply.Tame :=
  stable_pop.seq fun _ => stable_pop.seq fun _ => (Stable.askedStore _).seq fun _ =>
    (Stable.orFail fun _ _ => trivial).seq (P := Untold) fun _ => stable_pushNext fun _ => nofun

theorem stable_not : Stable ops not Reply.Tame :=
  stable_pop.seq fun _ => stable_pushNext fun _ => nofun

theorem stable_typeOf : Stable ops typeOf Reply.Tame :=
  stable_pop.seq fun _ => stable_pushNext fun _ => nofun

theorem stable_isa : Stable ops isa Reply.Tame :=
  stable_popType.seq fun _ => stable_popType.seq fun _ => stable_pushNext fun _ => nofun

theorem stable_is : Stable ops is Reply.Tame :=
  stable_popType.seq fun _ => stable_pop.seq fun _ => stable_pushNext fun _ => nofun

theorem stable_errors : Stable ops errors Reply.Tame := by
  apply (Stable.asked _).seq
  intro faults
  apply (stable_errorList faults).bind
  exact fun list told => stable_pushNext told

/-- The innermost `try:` form comes to have collected other faults. -/
theorem stable_collect (f : List Fault → List Fault) : Stable ops (alter fun t =>
    { t with tries := t.tries.modify (t.tries.size - 1) fun e => { e with faults := f e.faults } })
    Untold :=
  .alter (.collect f) fun _ all => { all with }

theorem stable_clearErrors : Stable ops clearErrors Reply.Tame :=
  stable_popSym.seq fun _ => (Stable.orFail fun _ _ => trivial).seq (P := Untold) fun _ =>
    (Stable.asked _).seq fun _ => (stable_collect fun _ => _).seq fun _ =>
      stable_pushNext fun _ => nofun

/-! ## Collections -/

theorem stable_listRef (v : Value) : Stable ops (listRef v) Untold := by
  unfold listRef
  split
  · exact .done _
  · exact .fail _

theorem stable_tableRef (v : Value) : Stable ops (tableRef v) Untold := by
  unfold tableRef
  split
  · exact .done _
  · exact .fail _

theorem stable_place (index : Int64) (length : Nat) : Stable ops (place index length) Untold := by
  unfold place
  split
  · exact .done _
  · exact .fail _

theorem stable_alterList (l : Ref) {f : Array Value → Array Value}
    (h : ∀ s, (∀ v ∈ s, v.Tame) → ∀ v ∈ f s, v.Tame) : Stable ops (alterList l f) Untold :=
  .alterStore fun _ old => { old with
    all := { old.all with lists := Values.modify old.all.lists h } }

theorem stable_len : Stable ops len Reply.Tame := by
  apply stable_pop.seq
  intro v
  dsimp only
  split <;> first
    | exact (Stable.askedStore _).seq fun _ => stable_pushNext fun _ => nofun
    | exact (Stable.done _).seq fun _ => stable_pushNext fun _ => nofun
    | exact Stable.bind (P := Untold) (.fail _) fun _ _ => stable_pushNext fun _ => nofun

theorem stable_pushItem : Stable ops pushItem Reply.Tame := by
  apply stable_pop.bind
  intro item tame
  apply (stable_peek _).seq
  intro list
  apply (stable_listRef list).seq
  intro l
  exact (stable_alterList l fun _ old => Values.pushed old tame).thenNext

theorem stable_popItem : Stable ops popItem Reply.Tame := by
  apply (stable_peek _).seq
  intro list
  apply (stable_listRef list).seq
  intro l
  apply Stable.bind (P := fun v? => ∀ v, v? = some v → Value.Tame v)
  · exact .askStore fun s store v found => tame_listAt store l v (Array.mem_of_back? found)
  · intro v? told
    apply (stable_alterList l fun _ old => Values.popped old).seq
    exact fun _ => stable_pushNext (tame_getD told)

theorem stable_listGet : Stable ops listGet Reply.Tame := by
  apply stable_popInt.seq
  intro index
  apply stable_pop.seq
  intro list
  apply (stable_listRef list).seq
  intro l
  apply Stable.bind (P := fun items : Array Value => ∀ v ∈ items, v.Tame)
  · exact .askStore fun s store => tame_listAt store l
  · intro items told
    apply (stable_place index items.size).seq
    exact fun i => stable_pushNext (tame_getD fun v found => told v (Array.mem_of_getElem? found))

theorem stable_tableGet : Stable ops tableGet Reply.Tame := by
  apply stable_pop.seq
  intro key
  apply stable_pop.seq
  intro table
  apply (stable_tableRef table).seq
  intro t
  apply Stable.bind (P := fun v? => ∀ v, v? = some v → Value.Tame v)
  · refine .askStore fun s store v found => ?_
    obtain ⟨k, member⟩ := mem_of_findKey found
    exact (tame_tableAt store t _ member).2
  · exact fun v? told => stable_pushNext (tame_getD told)

theorem stable_listPut : Stable ops listPut Reply.Tame := by
  apply stable_pop.bind
  intro item tame
  apply stable_popInt.seq
  intro index
  apply (stable_peek _).seq
  intro list
  apply (stable_listRef list).seq
  intro l
  apply (Stable.askedStore _).seq
  intro length
  apply (stable_place index length).seq
  exact fun i => (stable_alterList l fun _ old => Values.set old tame).thenNext

theorem stable_tablePut : Stable ops tablePut Reply.Tame := by
  apply stable_pop.bind
  intro v value
  apply stable_pop.bind
  intro k key
  apply (stable_peek _).seq
  intro table
  apply (stable_tableRef table).seq
  intro t
  apply Stable.bind (P := fun entries : Table => ∀ e ∈ entries, e.1.Tame ∧ e.2.Tame)
  · exact .askStore fun s store => tableInsert_all (tame_tableAt store t) key value
  · intro entries told
    exact Stable.thenNext (.alterStore fun _ old => { old with
      all := { old.all with tables := Values.set old.all.tables told } })

theorem stable_makePair : Stable ops makePair Reply.Tame := by
  apply stable_pop.bind
  intro right second
  apply stable_pop.bind
  intro left first
  apply (stable_pairOf first second).bind
  exact fun pair told => stable_pushNext told

theorem stable_popPair : Stable ops popPair fun sides => sides.1.Tame ∧ sides.2.Tame := by
  apply stable_pop.seq
  intro v
  split
  · rename_i p _
    refine .askStore fun s store => ?_
    cases found : s.pairs[p]? with
    | none => exact ⟨fun _ => nofun, fun _ => nofun⟩
    | some sides => exact store.all.pairs sides (Array.mem_of_getElem? found)
  · exact .fail _

theorem stable_left : Stable ops left Reply.Tame :=
  stable_popPair.bind fun _ told => stable_pushNext told.1

theorem stable_right : Stable ops right Reply.Tame :=
  stable_popPair.bind fun _ told => stable_pushNext told.2

theorem stable_makeList (hr : r.Sound ops) : Stable ops (makeList r) Reply.Tame := by
  apply stable_pop.seq
  intro seq
  apply (stable_drain hr seq).bind
  intro items told
  apply (stable_listOf _ told).bind
  exact fun list told => stable_pushNext told

theorem stable_fillTable (items : List Value) {table : Table}
    (old : ∀ e ∈ table, e.1.Tame ∧ e.2.Tame) :
    Stable ops (fillTable table items) fun entries => ∀ e ∈ entries, e.1.Tame ∧ e.2.Tame := by
  induction items generalizing table with
  | nil => exact .pure old
  | cons item items ih =>
    unfold fillTable
    split
    · rename_i p _
      apply Stable.bind (P := fun entries : Table => ∀ e ∈ entries, e.1.Tame ∧ e.2.Tame)
      · refine .askStore fun s store => ?_
        cases found : s.pairs[p]? with
        | none => exact old
        | some sides =>
          have both := store.all.pairs sides (Array.mem_of_getElem? found)
          exact tableInsert_all old both.1 both.2
      · exact fun entries told => ih told
    · exact .fail _

theorem stable_makeTable (hr : r.Sound ops) : Stable ops (makeTable r) Reply.Tame := by
  apply stable_pop.seq
  intro seq
  dsimp only
  apply (stable_drain hr seq).seq
  intro items
  apply (stable_fillTable items.toList (List.forall_mem_nil _)).bind
  intro entries told
  apply (stable_tableOf _ _ told).bind
  exact fun table told => stable_pushNext told

theorem stable_byteOf (v : Value) : Stable ops (byteOf v) Untold := by
  apply Stable.seq (P := Untold) (.orFail fun _ _ => trivial)
  intro n
  split
  · exact .done _
  · exact .fail _

theorem stable_makeBin (hr : r.Sound ops) : Stable ops (makeBin r) Reply.Tame := by
  apply stable_pop.seq
  intro seq
  apply (stable_drain hr seq).seq
  intro items
  have each : Stable ops (items.mapM byteOf) fun bytes => ∀ b ∈ bytes, True :=
    .arrayMapM (A := fun _ => True) (fun _ _ => trivial) fun v _ => stable_byteOf v
  apply each.seq
  intro bytes
  apply (stable_newBin bytes).bind
  exact fun bin told => stable_pushNext told

theorem stable_strBin : Stable ops strBin Reply.Tame :=
  stable_popStr.seq fun _ => (stable_newBin _).bind fun _ told => stable_pushNext told

theorem stable_toStr : Stable ops toStr Reply.Tame :=
  stable_pop.seq fun _ => (Stable.askedStore _).seq fun _ => stable_pushNext fun _ => nofun

theorem stable_binStr : Stable ops binStr Reply.Tame := by
  apply stable_pop.seq
  intro v
  dsimp only
  split
  · exact (Stable.askedStore _).seq fun _ => stable_pushNext fun _ => nofun
  · exact Stable.bind (P := Untold) (.fail _) fun _ _ => .pure rfl

/-! ## Iterators -/

theorem stable_makeIter : Stable ops makeIter Reply.Tame := by
  apply stable_pop.bind
  intro v tame
  dsimp only
  split
  · exact stable_pushNext tame
  · apply (stable_iterate v).seq
    intro iter
    apply (stable_iterOf iter _).bind
    exact fun value told => stable_pushNext told

theorem stable_nextItem (hr : r.Sound ops) : Stable ops (nextItem r) Reply.Tame := by
  apply stable_pop.bind
  intro v tame
  apply (stable_iterate v).seq
  intro iter
  apply (stable_await hr iter stepLimit).bind
  intro item? told
  exact (stable_pushEach (by simp [tame, tame_getD told])).thenNext

theorem stable_pushIter {it : Iterator} (item : Ty) (all : it.All Value.Tame) :
    Stable ops (pushIter it item) Reply.Tame := by
  apply (stable_newIter all).seq
  intro iter
  apply (stable_iterOf iter item).bind
  exact fun value told => stable_pushNext told

theorem stable_range : Stable ops range Reply.Tame :=
  stable_popInt.seq fun _ => stable_popInt.seq fun _ => stable_pushIter _ trivial

theorem stable_filter : Stable ops filter Reply.Tame := by
  apply stable_pop.bind
  intro test tame
  apply stable_pop.seq
  intro seq
  apply (stable_iterate seq).seq
  exact fun source => stable_pushIter _ tame

theorem stable_map : Stable ops map Reply.Tame := by
  apply stable_pop.bind
  intro f tame
  apply stable_pop.seq
  intro seq
  apply (stable_iterate seq).seq
  exact fun source => stable_pushIter _ tame

theorem stable_zip : Stable ops zip Reply.Tame := by
  apply stable_pop.seq
  intro right
  apply stable_pop.seq
  intro left
  apply (stable_instantiate _ _).seq
  intro item
  apply (stable_iterate left).seq
  intro l
  apply (stable_iterate right).seq
  exact fun r => stable_pushIter _ nofun

theorem stable_rand : Stable ops rand Reply.Tame :=
  stable_popInt.seq fun _ => .refuse fun _ => stable_pushIter _ trivial

theorem stable_pollSources (capacity : Nat) (values : List Value) (set : List Ref) :
    Stable ops (pollSources capacity values set) Untold := by
  induction values generalizing set with
  | nil => exact .done _
  | cons v values ih =>
    refine (stable_iterate v).seq fun source => ?_
    cases addSource capacity source set with
    | ok => exact ih _
    | error => exact .fail _

theorem stable_poll : Stable ops poll Reply.Tame := by
  apply stable_pop.seq
  intro list
  apply (stable_listRef list).seq
  intro l
  apply (Stable.askedStore _).seq
  intro sources
  apply (Stable.askedShared _).seq
  intro capacity
  apply (stable_pollSources capacity sources.toList []).seq
  exact fun queue => stable_pushIter _ trivial

/-! ## Fibers and threads -/

theorem stable_makeFiber : Stable ops makeFiber Reply.Tame := by
  apply stable_pop.bind
  intro target tame
  apply stable_freshId.seq
  intro id
  have puts : Stable ops
      (Run.alloc (·.fibers.size) fun s => { s with fibers := s.fibers.push ⟨id, target, .fresh⟩ })
      Untold := by
    refine .alloc fun s old => { old with all := { old.all with fibers := ?_ }, fibers := ?_ }
    · exact Values.pushed old.all.fibers ⟨tame, nofun⟩
    · exact Values.pushed old.fibers nofun
  exact puts.seq fun _ => stable_pushNext fun _ => nofun

theorem stable_fiberDone : Stable ops fiberDone Reply.Tame := by
  apply stable_pop.seq
  intro v
  dsimp only
  split
  · exact (Stable.askedStore _).seq fun _ => stable_pushNext fun _ => nofun
  · exact Stable.bind (P := Untold) (.fail _) fun _ _ => .pure rfl

/-- The work of another thread leaves that thread orderly, and this one as it was. -/
theorem stable_onThread (hr : r.Sound ops) {target : Value} (tame : target.Tame) (id : Nat) :
    Stable ops (Run.ask (·.fork id) >>= fun child => onThread child (r.runThread target))
      fun out => out.2.Orderly ops := by
  intro m orderly
  have forked : Machine.Orderly ops { m with thread := m.thread.fork id } :=
    { orderly with thread := orderly.thread.fork id }
  have child : Meets ops { m with thread := m.thread.fork id } (r.runThread target).attempt _ fun _ => False :=
    (hr.runThread target tame _ m.thread id forked rfl).attempt
  have asked : Run.ask (Thread.fork · id) m = .ok (m.thread.fork id) m := rfl
  apply Meets.next asked
  have back {n : Machine} (left : n.Orderly ops) : m.Remains ops { n with thread := m.thread } :=
    ⟨{ left with thread := orderly.thread }, .refl _⟩
  cases run : (r.runThread target).attempt { m with thread := m.thread.fork id } with
  | ok result n =>
    have left : n.Orderly ops := by
      rcases child.ok run with ⟨_, _, left⟩ | ⟨_, _, left⟩ <;> exact left
    refine .of_ok (n := { n with thread := m.thread }) (a := (result, n.thread)) ?_
      ⟨back left, left.thread⟩
    rw [onThread, run]
  | error e n =>
    obtain rfl := attempt_error run
    have ends : onThread (m.thread.fork id) (r.runThread target) m =
        .error .outOfFuel { n with thread := m.thread } := by
      rw [onThread, run]
    rw [Meets, ends]
    exact { child.stopped run with thread := orderly.thread }

theorem stable_spawn (hr : r.Sound ops) {target : Value} (tame : target.Tame) :
    Stable ops (spawn r target) Untold := by
  apply stable_freshId.seq
  intro id
  apply (stable_note _ _).seq
  intro _
  apply (Stable.asked _).seq
  intro parent
  apply (stable_noteThread _ _ _).seq
  intro _
  have puts {child : Thread} (left : child.Orderly ops) (outcome : Except Fault (Array Value))
      (h : ∀ vs, outcome = .ok vs → vs = child.stack) : Stable ops (Run.alloc (·.threads.size) fun s =>
        { s with threads := s.threads.push ⟨id, some outcome⟩ }) Untold := by
    refine .alloc fun s old => { old with all := { old.all with threads := ?_ } }
    refine Values.pushed old.all.threads fun vs same v member => ?_
    rw [h vs (Option.some.inj same)] at member
    exact left.all.stack v member
  rw [← bind_assoc]
  apply (stable_onThread hr tame id).bind
  rintro ⟨result, child⟩ left
  cases result with
  | ok u => exact (stable_noteThread _ _ _).seq fun _ => puts left _ fun vs same => (Except.ok.inj same).symm
  | error e => exact (stable_noteThread _ _ _).seq fun _ => puts left _ fun vs same => by cases same

theorem stable_startThread (hr : r.Sound ops) : Stable ops (startThread r) Reply.Tame := by
  apply stable_pop.bind
  intro target tame
  apply (stable_spawn hr tame).seq
  exact fun t => stable_pushNext fun _ => nofun

theorem stable_takeOutcome (t : Ref) :
    Stable ops (takeOutcome t) fun left => ∀ vs, left.2 = .ok vs → ∀ v ∈ vs, v.Tame := by
  apply Stable.bind (P := fun h : ThreadHandle => ∀ vs, h.outcome = some (.ok vs) → ∀ v ∈ vs, v.Tame)
  · refine .askStore fun s store => ?_
    cases found : s.threads[t]? with
    | none =>
      intro vs told
      cases told
    | some handle => exact store.all.threads handle (Array.mem_of_getElem? found)
  · intro handle told
    cases left : handle.outcome with
    | none => exact .fail _
    | some outcome =>
      have taken : Stable ops (alterStore (·.takeOutcome t)) Untold := by
        refine .alterStore fun _ old => { old with all := { old.all with threads := ?_ } }
        simp only [Store.takeOutcome]
        refine Values.modify old.all.threads fun _ _ => ?_
        intro _ same
        cases same
      apply taken.seq
      intro _
      rw [left] at told
      exact .pure fun vs same => told vs (congrArg some same)

theorem stable_join : Stable ops join Reply.Tame := by
  apply stable_pop.seq
  intro v
  split
  · apply (stable_takeOutcome _).bind
    intro (id, outcome) told
    apply (Stable.ofExcept told).bind
    intro values tame
    apply (Stable.asked _).seq
    intro joiner
    apply (stable_noteThread _ _ _).seq
    intro _
    have pushes : Stable ops (pushEach values.toList) Untold :=
      stable_pushEach fun v member => tame v (Array.mem_toList_iff.1 member)
    rw [pushEach, Array.toArray_toList] at pushes
    exact pushes.thenNext
  · exact .fail _

/-! ## Files, sockets and printing -/

theorem stable_openFile : Stable ops openFile Reply.Tame := by
  apply stable_popStr.seq
  intro word
  apply stable_popStr.seq
  intro path
  apply Stable.seq (P := Untold) (.orFail fun _ _ => trivial)
  intro mode
  apply (Stable.askedShared _).seq
  intro files
  dsimp only
  split
  · exact .fail _
  · rename_i handle _ _
    have puts : Stable ops
        (Run.alloc (·.files.size) fun s => { s with files := s.files.push handle }) Untold :=
      .alloc fun _ old => { old with all := { old.all with } }
    apply (stable_alterHost _).seq
    intro _
    exact puts.seq fun _ => stable_pushNext fun _ => nofun

theorem stable_readIter : Stable ops readIter Reply.Tame := by
  apply stable_pop.seq
  intro v
  split <;> first
    | exact .fail _
    | exact stable_pushIter _ trivial

theorem stable_writeFile (f : Ref) (bytes : Array UInt8) : Stable ops (writeFile f bytes) Untold := by
  apply (Stable.askedShared _).seq
  intro files
  apply (Stable.askedStore _).seq
  intro handle
  dsimp only
  split
  · exact .fail _
  · intro m orderly
    refine .of_ok rfl ⟨⟨?_, .refl _⟩, trivial⟩
    exact { orderly with store := { orderly.store with all := { orderly.store.all with } } }

theorem stable_bytesOf (v : Value) : Stable ops (bytesOf v) Untold := by
  unfold bytesOf
  split <;> exact .askedStore _

theorem stable_writeSocket (s : Ref) (fuel : Nat) (bytes : List UInt8) :
    Stable ops (writeSocket s fuel bytes) Untold := by
  induction fuel generalizing bytes with
  | zero =>
    cases bytes with
    | nil => exact .done ()
    | cons b bytes => exact .exhausted
  | succ fuel ih =>
    cases bytes with
    | nil => exact .done ()
    | cons b bytes =>
      apply (Stable.askedStore _).seq
      intro listens
      apply Stable.refuse
      intro _
      apply (stable_askNetwork _).seq
      intro answer
      split
      · exact .fail _
      · exact ih _
      · exact ih _
      · exact .fail _

theorem stable_writeTo (target : Value) (bytes : Array UInt8) :
    Stable ops (writeTo target bytes) Untold := by
  unfold writeTo
  split
  · exact stable_writeFile _ _
  · exact .fail _
  · exact stable_writeSocket _ _ _
  · exact .fail _
  · exact .fail _

theorem stable_write : Stable ops write Reply.Tame :=
  stable_pop.seq fun _ => (stable_peek _).seq fun _ => (stable_bytesOf _).seq fun _ =>
    (stable_writeTo _ _).thenNext

theorem stable_say : Stable ops say Reply.Tame :=
  stable_pop.seq fun _ => (Stable.askedStore _).seq fun _ => (stable_alterHost _).thenNext

theorem stable_dir (recursive : Bool) : Stable ops (dir recursive) Reply.Tame :=
  stable_popStr.seq fun _ => (Stable.askedShared _).seq fun _ => .refuse fun _ =>
    stable_pushIter _ trivial

theorem stable_orIo (answer : Except String α) : Stable ops (orIo answer) Untold := by
  cases answer with
  | ok a => exact .done a
  | error message => exact .fail _

theorem stable_listen : Stable ops listen Reply.Tame := by
  apply stable_popStr.seq
  intro addr
  apply Stable.seq (P := Untold) (.ofExcept fun _ _ => trivial)
  intro _
  apply (stable_askNetwork _).seq
  intro answer
  apply (stable_orIo answer).seq
  intro addr
  have puts : Stable ops
      (Run.alloc (·.sockets.size) fun st => { st with sockets := st.sockets.push ⟨addr, true⟩ }) Untold :=
    .alloc fun _ old => { old with all := { old.all with } }
  exact puts.seq fun _ => stable_pushNext fun _ => nofun

theorem stable_acceptIter : Stable ops acceptIter Reply.Tame := by
  apply stable_pop.seq
  intro v
  split
  · apply (Stable.askedStore _).seq
    intro listens
    exact .refuse fun _ => stable_pushIter _ trivial
  · exact .fail _

theorem stable_connectIter : Stable ops connectIter Reply.Tame := by
  apply stable_popStr.seq
  intro addr
  apply Stable.seq (P := Untold) (.ofExcept fun _ _ => trivial)
  intro _
  apply (stable_askNetwork _).seq
  intro answer
  apply (stable_orIo answer).seq
  intro found
  exact Stable.seq (P := Untold) (.orFail fun _ _ => trivial) fun addr => stable_pushIter _ trivial

/-! ## Calls and fields -/

theorem stable_branch : Stable ops branch Reply.Tame := by
  apply stable_pop.bind
  intro no hn
  apply stable_pop.bind
  intro yes hy
  apply stable_pop.seq
  intro condition
  have tame : (if condition.truthy then yes else no).Tame := by
    split
    · exact hy
    · exact hn
  generalize (if condition.truthy then yes else no) = chosen at tame ⊢
  dsimp only
  split
  · exact .pure tame
  · exact stable_pushNext tame

theorem stable_deferCall : Stable ops deferCall Reply.Tame := by
  apply stable_pop.bind
  intro f tame
  refine Stable.thenNext (.alter (.defer (f :: ·)) fun t all => ?_)
  exact all.modifyScope fun s old => { old with
    defers := List.forall_mem_cons.2 ⟨tame, old.defers⟩ }

theorem stable_structRef (v : Value) : Stable ops (structRef v) Untold := by
  unfold structRef
  split
  · exact .done _
  · exact .fail _

theorem stable_construct (t : Ty) (fields : Nat) : Stable ops (construct t fields) Reply.Tame := by
  apply stable_pop.seq
  intro _
  apply (stable_popN fields).bind
  intro values told
  have puts : Stable ops
      (Run.alloc (·.structs.size) fun s => { s with structs := s.structs.push values }) Untold :=
    .alloc fun _ old => { old with
      all := { old.all with structs := Values.pushed old.all.structs told } }
  exact puts.seq fun _ => stable_pushNext fun _ => nofun

theorem stable_field (i : Nat) : Stable ops (field i) Reply.Tame := by
  apply stable_pop.seq
  intro v
  apply (stable_structRef v).seq
  intro j
  apply Stable.bind (P := fun v? => ∀ v, v? = some v → Value.Tame v)
  · exact .askStore fun s store v found => tame_structAt store j v (Array.mem_of_getElem? found)
  · exact fun v? told => stable_pushNext (tame_getD told)

theorem stable_setField (i : Nat) : Stable ops (setField i) Reply.Tame := by
  apply stable_pop.bind
  intro item tame
  apply (stable_peek _).seq
  intro v
  apply (stable_structRef v).seq
  intro j
  exact Stable.thenNext (.alterStore fun _ old => { old with
    all := { old.all with
      structs := Values.modify old.all.structs fun _ fields => Values.set fields tame } })

/-! ## All functions of the library -/

/-- What the embedding program's functions do that do not change the flow of control. -/
theorem stable_hostCall {f : HostCall} (goesOn : f.raise = none → f.jump = none)
    (tame : ∀ v ∈ f.push, v.Tame) : Stable ops (hostCall f) Reply.Tame := by
  apply (stable_popN _).seq
  intro _
  apply (stable_pushEach tame).seq
  intro _
  cases raise : f.raise with
  | some message => exact .fail _
  | none =>
    rw [goesOn raise]
    exact .pure rfl

theorem stable_pend : Stable ops pend Reply.Tame := by
  apply stable_popInt.seq
  intro stop
  apply stable_popInt.seq
  intro wait
  apply stable_pushIter
  intro k v answer
  unfold pendAnswers at answer
  split at answer
  · cases answer
  · dsimp only at answer
    split at answer
    · cases answer
      exact fun _ same => by cases same
    · cases answer

theorem stable_native (hr : r.Sound ops) {f : Native} (plain : f.Plain) :
    Stable ops (f.run r) Reply.Tame := by
  cases f with
  | dup => exact stable_dup
  | swap => exact stable_swap
  | rot => exact stable_rot
  | reset => exact stable_emptied.thenNext
  | stash => exact stable_stash
  | depth => exact stable_depth
  | intOp op => exact stable_intOp op
  | ratioOp op => exact stable_ratioOp op
  | makeRatio => exact stable_makeRatio
  | equal => exact stable_equal
  | same => exact stable_same
  | order test => exact stable_order test
  | not => exact stable_not
  | typeOf => exact stable_typeOf
  | isa => exact stable_isa
  | is => exact stable_is
  | call => exact stable_pop.bind fun _ tame => .pure tame
  | choose => exact stable_branch
  | defer => exact stable_deferCall
  | len => exact stable_len
  | push => exact stable_pushItem
  | pop => exact stable_popItem
  | listGet => exact stable_listGet
  | tableGet => exact stable_tableGet
  | listPut => exact stable_listPut
  | tablePut => exact stable_tablePut
  | pair => exact stable_makePair
  | left => exact stable_left
  | right => exact stable_right
  | list => exact stable_makeList hr
  | table => exact stable_makeTable hr
  | bin => exact stable_makeBin hr
  | strBin => exact stable_strBin
  | str => exact stable_toStr
  | binStr => exact stable_binStr
  | iter => exact stable_makeIter
  | next => exact stable_nextItem hr
  | range => exact stable_range
  | filter => exact stable_filter
  | map => exact stable_map
  | zip => exact stable_zip
  | rand => exact stable_rand
  | openFile => exact stable_openFile
  | readIter => exact stable_readIter
  | write => exact stable_write
  | say => exact stable_say
  | dir recursive => exact stable_dir recursive
  | listen => exact stable_listen
  | acceptIter => exact stable_acceptIter
  | connectIter => exact stable_connectIter
  | poll => exact stable_poll
  | fiber => exact stable_makeFiber
  | fiberDone => exact stable_fiberDone
  | thread => exact stable_startThread hr
  | join => exact stable_join
  | raise => exact stable_popStr.seq fun _ => .fail _
  | reraise => exact stable_popError.seq fun _ => .fail _
  | errors => exact stable_errors
  | errorKind => exact stable_popError.seq fun _ => stable_pushNext fun _ => nofun
  | errorMessage => exact stable_popError.seq fun _ => stable_pushNext fun _ => nofun
  | clearErrors => exact stable_clearErrors
  | construct t fields => exact stable_construct t fields
  | field i => exact stable_field i
  | setField i => exact stable_setField i
  | host f => exact stable_hostCall plain.1 plain.2
  | hostIter answers item => exact stable_pushIter _ plain
  | hostPend => exact stable_pend

end Run

end Catena
