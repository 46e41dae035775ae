import Catena.Proofs.Run.Flat
import Catena.Run.Exec

/-!
# Library functions stay at one level of nesting

So do the pulling of iterators and the conversion of arguments.
-/

namespace Catena

open Run (Flat)

variable {α β : Type} {r : Reentry}

namespace Run

theorem flat_popRatio : Flat r popRatio := flat_popAs _ _

/-! ## Stack, numbers, types and errors -/

theorem flat_popError : Flat r popError := by
  refine flat_pop.bind fun v => ?_
  split
  · exact .askStore _
  · exact .fail _

theorem flat_errorList (faults : List Fault) : Flat r (errorList faults) :=
  (Flat.arrayMapM flat_newError _).bind fun _ => flat_listOf _ _

theorem flat_dup : Flat r dup :=
  flat_pop.bind fun _ => (flat_pushEach _).thenNext

theorem flat_swap : Flat r swap :=
  (flat_popN 2).bind fun _ => (flat_pushEach _).thenNext

theorem flat_rot : Flat r rot :=
  (flat_popN 3).bind fun _ => (flat_pushEach _).thenNext

theorem flat_reset : Flat r reset :=
  (flat_alterStack _).thenNext

theorem flat_stash : Flat r stash :=
  (Flat.ask fun _ _ => rfl).bind fun _ => (flat_alterStack _).bind fun _ => (flat_listFrom _).thenPush id

theorem flat_depth : Flat r depth :=
  (Flat.ask fun _ _ => rfl).bind fun _ => (flat_push _).thenNext

theorem flat_intOp (op : IntOp) : Flat r (intOp op) :=
  flat_popInt.bind fun _ => flat_popInt.bind fun _ => (Flat.orFail _ _).thenPush .int

theorem flat_ratioOp (op : RatioOp) : Flat r (ratioOp op) :=
  flat_popRatio.bind fun _ => flat_popRatio.bind fun _ => (Flat.orFail _ _).thenPush .ratio

theorem flat_makeRatio : Flat r makeRatio :=
  flat_popInt.bind fun _ => flat_popInt.bind fun _ => (Flat.orFail _ _).thenPush .ratio

theorem flat_equal : Flat r equal :=
  flat_pop.bind fun _ => flat_pop.bind fun _ => (Flat.askStore _).thenPush .bool

theorem flat_same : Flat r same :=
  flat_pop.bind fun _ => flat_pop.bind fun _ => (flat_push _).thenNext

theorem flat_order (test : OrderTest) : Flat r (order test) :=
  flat_pop.bind fun _ => flat_pop.bind fun _ => (Flat.askStore _).bind fun _ =>
    (Flat.orFail _ _).bind fun _ => (flat_push _).thenNext

theorem flat_not : Flat r not :=
  flat_pop.bind fun _ => (flat_push _).thenNext

theorem flat_typeOf : Flat r typeOf :=
  flat_pop.bind fun _ => (flat_push _).thenNext

theorem flat_isa : Flat r isa :=
  flat_popType.bind fun _ => flat_popType.bind fun _ => (flat_push _).thenNext

theorem flat_is : Flat r is :=
  flat_popType.bind fun _ => flat_pop.bind fun _ => (flat_push _).thenNext

theorem flat_raise : Flat r raise :=
  flat_popStr.bind fun _ => .fail _

theorem flat_reraise : Flat r reraise :=
  flat_popError.bind fun _ => .fail _

theorem flat_errors : Flat r errors :=
  (Flat.ask fun _ _ => rfl).bind fun _ => (flat_errorList _).thenPush id

theorem flat_errorKind : Flat r errorKind :=
  flat_popError.bind fun _ => (flat_push _).thenNext

theorem flat_errorMessage : Flat r errorMessage :=
  flat_popError.bind fun _ => (flat_push _).thenNext

theorem flat_clearErrors : Flat r clearErrors := by
  refine flat_popSym.bind fun _ => (Flat.orFail _ _).bind fun kind => ?_
  refine (Flat.ask fun _ _ => rfl).bind fun faults => Flat.bind ?_ fun _ => (flat_push _).thenNext
  exact .alter (.collect fun _ => _)

/-! ## Pulling -/

theorem flat_iterate (v : Value) : Flat r (iterate v) := by
  unfold iterate
  dsimp only
  split <;> first | exact flat_newIter _ | exact .fail _ | exact .pure _

theorem flat_pullWhere {pull : Puller} (hp : ∀ i, Flat r (pull i))
    (source : Ref) (test : Value) (fuel : Nat) :
    Flat r (pullWhere r pull source test fuel) := by
  induction fuel with
  | zero => exact .exhausted
  | succ fuel ih =>
    refine (hp source).bind fun pulled => ?_
    cases pulled with
    | item v =>
      refine (Flat.call test [v]).bind fun answer? => ?_
      cases answer? with
      | none => exact ih
      | some answer =>
        dsimp only
        split
        · exact .pure _
        · exact ih
    | pending => exact .pure _
    | done => exact .pure _

theorem flat_pollRound {pull : Puller} (hp : ∀ i, Flat r (pull i)) (todo kept : List Ref) :
    Flat r (pollRound pull todo kept) := by
  induction todo generalizing kept with
  | nil => exact .pure _
  | cons source todo ih =>
    refine (hp source).bind fun pulled => ?_
    cases pulled with
    | item v => exact .pure _
    | pending => exact ih _
    | done => exact ih _

theorem flat_pollUntil {pull : Puller} (hp : ∀ i, Flat r (pull i)) (fuel : Nat)
    (queue : List Ref) : Flat r (pollUntil pull fuel queue) := by
  induction fuel generalizing queue with
  | zero => exact .exhausted
  | succ fuel ih =>
    cases queue with
    | nil => exact .pure _
    | cons source queue =>
      refine (flat_pollRound hp _ _).bind fun (found, queue) => ?_
      cases found with
      | some v => exact .pure _
      | none => exact ih queue

theorem flat_askNetwork (request : Network → Nat → α) : Flat r (askNetwork request) := by
  refine (Flat.askShared fun _ => rfl).bind fun answer => ?_
  exact (Flat.alterHost fun _ => rfl).bind fun _ => .pure _

theorem flat_newSocket (peer : String) : Flat r (newSocket peer) :=
  .allocThen (fun _ => .of_eq rfl rfl rfl) fun _ => .pure _

theorem flat_walk (recursive : Bool) (frames : List WalkFrame) :
    Flat r (walk recursive frames) := by
  refine (Flat.askShared fun _ => rfl).bind fun files => ?_
  split <;> exact .pure _

theorem flat_pairUp {pull : Puller} (hp : ∀ i, Flat r (pull i)) (left right : Ref)
    (first : Pulled) : Flat r (pairUp pull left right first) := by
  cases first with
  | item v =>
    refine (hp right).bind fun pulled => ?_
    cases pulled with
    | item w => exact (flat_pairOf v w).bind fun _ => .pure _
    | pending => exact .pure _
    | done => exact .pure _
  | pending => exact .pure _
  | done => exact .pure _

theorem flat_advance {pull : Puller} (hp : ∀ i, Flat r (pull i))
    (it : Iterator) : Flat r (advance r pull it) := by
  cases it with
  | range next stop => rw [advance]; split <;> exact .pure _
  | items l i => exact (Flat.askStore _).bind fun v? => by cases v? <;> exact .pure _
  | entries t i =>
    refine (Flat.askStore _).bind fun entry? => ?_
    cases entry? with
    | some entry => exact (flat_pairOf _ _).bind fun _ => .pure _
    | none => exact .pure _
  | bytes b i => exact (Flat.askStore _).bind fun v? => by cases v? <;> exact .pure _
  | chars rest => cases rest <;> exact .pure _
  | units rest => cases rest <;> exact .pure _
  | filter source test => exact (flat_pullWhere hp _ _ _).bind fun _ => .pure _
  | map source f =>
    refine (hp source).bind fun pulled => ?_
    cases pulled with
    | item v => exact (Flat.call f [v]).bind fun _ => (Flat.orFail _ _).bind fun _ => .pure _
    | pending => exact .pure _
    | done => exact .pure _
  | zip left right held =>
    cases held with
    | some v => exact flat_pairUp hp left right (.item v)
    | none => exact (hp left).bind fun _ => flat_pairUp hp left right _
  | random bound seed => exact .pure _
  | readFile file =>
    refine (Flat.askShared fun _ => rfl).bind fun files => (Flat.askStore _).bind fun handle => ?_
    split
    · exact .fail _
    · refine Flat.bind (.alterStore fun _ => .of_eq rfl rfl rfl) fun _ => ?_
      split
      · exact .pure _
      · exact (flat_newBin _).bind fun _ => .pure _
  | readSocket s =>
    refine (Flat.askStore _).bind fun listens => Flat.refuse ?_
    refine (flat_askNetwork _).bind fun answer => ?_
    split
    · exact .pure _
    · exact (flat_newBin _).bind fun _ => .pure _
    · exact .pure _
    · exact .fail _
  | walkRoot path recursive =>
    refine (Flat.askShared fun _ => rfl).bind fun files => ?_
    split
    · exact flat_walk _ _
    · exact .fail _
  | walk frames recursive => exact flat_walk _ _
  | accept s =>
    refine (Flat.askStore _).bind fun listens => ?_
    split
    · exact .pure _
    · refine (flat_askNetwork _).bind fun answer => ?_
      cases answer with
      | got peer => exact (flat_newSocket _).bind fun _ => .pure _
      | blocked => exact .pure _
      | failed message => exact .pure _
  | connect addr =>
    cases addr with
    | none => exact .pure _
    | some addr =>
      refine (flat_askNetwork _).bind fun answer => ?_
      cases answer with
      | got peer => exact (flat_newSocket _).bind fun _ => .pure _
      | blocked => exact .pure _
      | failed message => exact .pure _
  | poll queue =>
    refine (flat_pollUntil hp _ _).bind fun (found, queue) => ?_
    cases found <;> exact .pure _
  | host answers pulls => exact (Flat.ofExcept _).bind fun _ => .pure _

theorem flat_pullWithin (fuel : Nat) (iter : Ref) :
    Flat r (pullWithin r fuel iter) := by
  induction fuel generalizing iter with
  | zero => exact .exhausted
  | succ fuel ih => exact .atCell iter (flat_advance ih)

theorem flat_pull (iter : Ref) : Flat r (pull r iter) :=
  (Flat.askStore _).bind fun _ => flat_pullWithin _ iter

theorem flat_await (iter : Ref) (fuel : Nat) :
    Flat r (await r iter fuel) := by
  induction fuel with
  | zero => exact .exhausted
  | succ fuel ih =>
    refine (flat_pull iter).bind fun pulled => ?_
    cases pulled with
    | item v => exact .pure _
    | pending => exact ih
    | done => exact .pure _

theorem flat_drainInto (iter : Ref) (fuel : Nat) (items : Array Value) :
    Flat r (drainInto r iter fuel items) := by
  induction fuel generalizing items with
  | zero => exact .exhausted
  | succ fuel ih =>
    refine (flat_await iter _).bind fun v? => ?_
    cases v? with
    | some v => exact ih _
    | none => exact .pure _

theorem flat_drain (seq : Value) : Flat r (drain r seq) :=
  (flat_iterate seq).bind fun _ => flat_drainInto _ _ _

/-! ## Collections -/

theorem flat_listRef (v : Value) : Flat r (listRef v) := by
  unfold listRef
  split
  · exact .pure _
  · exact .fail _

theorem flat_tableRef (v : Value) : Flat r (tableRef v) := by
  unfold tableRef
  split
  · exact .pure _
  · exact .fail _

theorem flat_place (index : Int64) (length : Nat) : Flat r (place index length) := by
  unfold place
  split
  · exact .pure _
  · exact .fail _

theorem flat_alterList (l : Ref) (f : Array Value → Array Value) :
    Flat r (alterList l f) :=
  .alterStore fun _ => .of_eq rfl rfl rfl

theorem flat_setTable (t : Ref) (entries : Table) : Flat r (setTable t entries) :=
  .alterStore fun _ => .of_eq rfl rfl rfl

theorem flat_len : Flat r len := by
  refine flat_pop.bind fun v => ?_
  have rest (n : Nat) : Flat r (do push (.nat n); return .next : Run Reply) :=
    (flat_push _).thenNext
  dsimp only
  split
  · exact (Flat.askStore _).bind rest
  · exact (Flat.askStore _).bind rest
  · exact rest _
  · exact rest _
  · exact (Flat.askStore _).bind rest
  · exact (Flat.fail _).bind rest

theorem flat_pushItem : Flat r pushItem :=
  flat_pop.bind fun _ => (flat_peek _).bind fun _ => (flat_listRef _).bind fun _ =>
    (flat_alterList _ _).thenNext

theorem flat_popItem : Flat r popItem :=
  (flat_peek _).bind fun _ => (flat_listRef _).bind fun _ => (Flat.askStore _).bind fun _ =>
    (flat_alterList _ _).bind fun _ => (flat_push _).thenNext

theorem flat_listGet : Flat r listGet :=
  flat_popInt.bind fun _ => flat_pop.bind fun _ => (flat_listRef _).bind fun _ =>
    (Flat.askStore _).bind fun _ => (flat_place _ _).bind fun _ => (flat_push _).thenNext

theorem flat_tableGet : Flat r tableGet :=
  flat_pop.bind fun _ => flat_pop.bind fun _ => (flat_tableRef _).bind fun _ =>
    (Flat.askStore _).bind fun _ => (flat_push _).thenNext

theorem flat_listPut : Flat r listPut :=
  flat_pop.bind fun _ => flat_popInt.bind fun _ => (flat_peek _).bind fun _ =>
    (flat_listRef _).bind fun _ => (Flat.askStore _).bind fun _ => (flat_place _ _).bind fun _ =>
      (flat_alterList _ _).thenNext

theorem flat_tablePut : Flat r tablePut :=
  flat_pop.bind fun _ => flat_pop.bind fun _ => (flat_peek _).bind fun _ =>
    (flat_tableRef _).bind fun _ => (Flat.askStore _).bind fun _ => (flat_setTable _ _).thenNext

theorem flat_makePair : Flat r makePair :=
  flat_pop.bind fun _ => flat_pop.bind fun _ => (flat_pairOf _ _).thenPush id

theorem flat_popPair : Flat r popPair := by
  refine flat_pop.bind fun v => ?_
  split
  · exact .askStore _
  · exact .fail _

theorem flat_left : Flat r left := flat_popPair.thenPush (·.1)

theorem flat_right : Flat r right := flat_popPair.thenPush (·.2)

theorem flat_makeList : Flat r (makeList r) :=
  flat_pop.bind fun _ => (flat_drain _).bind fun _ => (flat_listOf _ _).thenPush id

theorem flat_fillTable (table : Table) (items : List Value) :
    Flat r (fillTable table items) := by
  induction items generalizing table with
  | nil => exact .pure _
  | cons item items ih =>
    unfold fillTable
    split
    · exact (Flat.askStore _).bind fun _ => ih _
    · exact .fail _

theorem flat_makeTable : Flat r (makeTable r) :=
  flat_pop.bind fun _ => (flat_drain _).bind fun _ => (flat_fillTable _ _).bind fun _ =>
    (flat_tableOf _ _ _).thenPush id

theorem flat_byteOf (v : Value) : Flat r (byteOf v) := by
  refine (Flat.orFail _ _).bind fun n => ?_
  split
  · exact .pure _
  · exact .fail _

theorem flat_makeBin : Flat r (makeBin r) :=
  flat_pop.bind fun _ => (flat_drain _).bind fun _ =>
    (Flat.arrayMapM flat_byteOf _).bind fun _ => (flat_newBin _).thenPush id

theorem flat_strBin : Flat r strBin :=
  flat_popStr.bind fun _ => (flat_newBin _).thenPush id

theorem flat_toStr : Flat r toStr :=
  flat_pop.bind fun _ => (Flat.askStore _).thenPush .str

theorem flat_binStr : Flat r binStr := by
  refine flat_pop.bind fun v => ?_
  split
  · exact (Flat.askStore _).bind fun _ => (flat_push _).thenNext
  · exact (Flat.fail _).bind fun _ => .pure _

theorem flat_iterPush (v : Value) : Flat r (do
    push (← iterOf (← iterate v) v.ty.elem)
    return .next : Run Reply) :=
  (flat_iterate v).bind fun _ => (flat_iterOf _ _).thenPush id

theorem flat_makeIter : Flat r makeIter := by
  refine flat_pop.bind fun v => ?_
  dsimp only
  split
  · exact (flat_push v).thenNext
  · exact flat_iterPush v

theorem flat_nextItem : Flat r (nextItem r) :=
  flat_pop.bind fun _ => (flat_iterate _).bind fun _ => (flat_await _ _).bind fun _ =>
    (flat_pushEach _).thenNext

theorem flat_pushIter (it : Iterator) (item : Ty) : Flat r (pushIter it item) :=
  (flat_newIter it).bind fun _ => (flat_iterOf _ _).thenPush id

theorem flat_range : Flat r range :=
  flat_popInt.bind fun _ => flat_popInt.bind fun _ => flat_pushIter _ _

theorem flat_filter : Flat r filter :=
  flat_pop.bind fun _ => flat_pop.bind fun _ => (flat_iterate _).bind fun _ => flat_pushIter _ _

theorem flat_map : Flat r map :=
  flat_pop.bind fun _ => flat_pop.bind fun _ => (flat_iterate _).bind fun _ => flat_pushIter _ _

theorem flat_zip : Flat r zip :=
  flat_pop.bind fun _ => flat_pop.bind fun _ => (Flat.instantiate _ _).bind fun _ =>
    (flat_iterate _).bind fun _ => (flat_iterate _).bind fun _ => flat_pushIter _ _

theorem flat_rand : Flat r rand := by
  exact flat_popInt.bind fun bound => Flat.refuse (flat_pushIter _ _)

theorem flat_pollSources (capacity : Nat) (values : List Value) (set : List Ref) :
    Flat r (pollSources capacity values set) := by
  induction values generalizing set with
  | nil => exact .pure _
  | cons v vs ih =>
    refine (flat_iterate v).bind fun source => ?_
    cases addSource capacity source set with
    | ok => exact ih _
    | error => exact .fail _

theorem flat_poll : Flat r poll :=
  flat_pop.bind fun _ => (flat_listRef _).bind fun _ => (Flat.askStore _).bind fun _ =>
    (Flat.askShared fun _ => rfl).bind fun _ => (flat_pollSources _ _ _).bind fun _ => flat_pushIter _ _

theorem flat_pend : Flat r pend :=
  flat_popInt.bind fun _ => flat_popInt.bind fun _ => flat_pushIter _ _

/-! ## Fibers and threads -/

theorem flat_makeFiber : Flat r makeFiber := by
  refine flat_pop.bind fun target => Flat.freshId.bind fun id => ?_
  refine Flat.bind ?_ fun _ => (flat_push _).thenNext
  exact (Flat.askStore _).bind fun f => (Flat.newFiber id target).bind fun _ => .pure f

theorem flat_fiberDone : Flat r fiberDone := by
  refine flat_pop.bind fun v => ?_
  split
  · exact (Flat.askStore _).bind fun _ => (flat_push _).thenNext
  · exact (Flat.fail _).bind fun _ => .pure _

theorem flat_startThread : Flat r (startThread r) :=
  flat_pop.bind fun _ => (Flat.spawn _).bind fun _ => (flat_push _).thenNext

theorem flat_join : Flat r join := by
  refine flat_pop.bind fun v => ?_
  split
  · refine (Flat.takeOutcome _).bind fun (id, outcome) => (Flat.ofExcept _).bind fun values => ?_
    refine (Flat.ask fun _ _ => rfl).bind fun _ => (Flat.noteThread _ _ _).bind fun _ => ?_
    exact (flat_alterStack _).thenNext
  · exact .fail _

/-! ## Files, sockets and printing -/

theorem flat_openFile : Flat r openFile := by
  refine flat_popStr.bind fun _ => flat_popStr.bind fun _ => (Flat.orFail _ _).bind fun _ => ?_
  refine (Flat.askShared fun _ => rfl).bind fun files => ?_
  split
  · exact .fail _
  · refine (Flat.alterHost fun _ => rfl).bind fun _ => ?_
    exact .allocThen (fun _ => .of_eq rfl rfl rfl) fun _ => (flat_push _).thenNext

theorem flat_readIter : Flat r readIter := by
  refine flat_pop.bind fun v => ?_
  split <;> first | exact flat_pushIter _ _ | exact .fail _

theorem flat_writeFile (f : Ref) (bytes : Array UInt8) : Flat r (writeFile f bytes) := by
  refine (Flat.askShared fun _ => rfl).bind fun files => (Flat.askStore _).bind fun handle => ?_
  split
  · exact .fail _
  · exact .alterShared ⟨fun _ => ⟨rfl, .refl _, rfl⟩, fun _ => rfl, fun _ => rfl, fun _ => .refl _,
      fun _ => .refl _⟩

theorem flat_bytesOf (v : Value) : Flat r (bytesOf v) := by
  unfold bytesOf
  split <;> exact .askStore _

theorem flat_writeSocket (s : Ref) (fuel : Nat) (bytes : List UInt8) :
    Flat r (writeSocket s fuel bytes) := by
  induction fuel generalizing bytes with
  | zero => cases bytes <;> first | exact .pure _ | exact .exhausted
  | succ fuel ih =>
    cases bytes with
    | nil => exact .pure _
    | cons byte bytes =>
      refine (Flat.askStore _).bind fun listens => Flat.refuse ?_
      refine (flat_askNetwork _).bind fun answer => ?_
      split
      · exact .fail _
      · exact ih _
      · exact ih _
      · exact .fail _

theorem flat_writeTo (target : Value) (bytes : Array UInt8) :
    Flat r (writeTo target bytes) := by
  unfold writeTo
  split
  · exact flat_writeFile _ _
  · exact .fail _
  · exact flat_writeSocket _ _ _
  · exact .fail _
  · exact .fail _

theorem flat_write : Flat r write :=
  flat_pop.bind fun _ => (flat_peek _).bind fun _ => (flat_bytesOf _).bind fun _ =>
    (flat_writeTo _ _).thenNext

theorem flat_say : Flat r say :=
  flat_pop.bind fun _ => (Flat.askStore _).bind fun _ =>
    (Flat.alterHost fun _ => rfl).thenNext

theorem flat_dir (recursive : Bool) : Flat r (dir recursive) := by
  refine flat_popStr.bind fun path => (Flat.askShared fun _ => rfl).bind fun isDir => ?_
  exact Flat.refuse (flat_pushIter _ _)

theorem flat_orIo (x : Except String α) : Flat r (orIo x) := by
  cases x with
  | ok a => exact .pure a
  | error message => exact .fail _

theorem flat_listen : Flat r listen :=
  flat_popStr.bind fun _ => (Flat.ofExcept _).bind fun _ => (flat_askNetwork _).bind fun _ =>
    (flat_orIo _).bind fun _ => .allocThen (fun _ => .of_eq rfl rfl rfl) fun _ => (flat_push _).thenNext

theorem flat_acceptIter : Flat r acceptIter := by
  refine flat_pop.bind fun v => ?_
  split
  · exact (Flat.askStore _).bind fun _ => Flat.refuse (flat_pushIter _ _)
  · exact .fail _

theorem flat_connectIter : Flat r connectIter :=
  flat_popStr.bind fun _ => (Flat.ofExcept _).bind fun _ => (flat_askNetwork _).bind fun _ =>
    (flat_orIo _).bind fun _ => (Flat.orFail _ _).bind fun _ => flat_pushIter _ _

/-! ## Calls, structures and the embedding program -/

theorem flat_callTop : Flat r callTop :=
  flat_pop.bind fun _ => .pure _

theorem flat_branch : Flat r branch := by
  refine flat_pop.bind fun no => flat_pop.bind fun yes => flat_pop.bind fun condition => ?_
  dsimp only
  generalize (if condition.truthy = true then yes else no) = chosen
  split
  · exact .pure _
  · exact (flat_push _).thenNext

theorem flat_deferCall : Flat r deferCall :=
  flat_pop.bind fun _ =>
    Flat.thenNext (.alter (.defer _))

theorem flat_construct (t : Ty) (fields : Nat) : Flat r (construct t fields) :=
  flat_pop.bind fun _ => (flat_popN _).bind fun _ =>
    .allocThen (fun _ => .of_eq rfl rfl rfl) fun _ => (flat_push _).thenNext

theorem flat_structRef (v : Value) : Flat r (structRef v) := by
  unfold structRef
  split
  · exact .pure _
  · exact .fail _

theorem flat_field (i : Nat) : Flat r (field i) :=
  flat_pop.bind fun _ => (flat_structRef _).bind fun _ => (Flat.askStore _).bind fun _ =>
    (flat_push _).thenNext

theorem flat_setField (i : Nat) : Flat r (setField i) :=
  flat_pop.bind fun _ => (flat_peek _).bind fun _ => (flat_structRef _).bind fun _ =>
    Flat.thenNext (.alterStore fun _ => .of_eq rfl rfl rfl)

theorem flat_hostCall (f : HostCall) : Flat r (hostCall f) := by
  refine (flat_popN _).bind fun _ => (flat_pushEach _).bind fun _ => ?_
  split <;> first | exact .fail _ | exact .pure _

theorem flat_native (f : Native) : Flat r (f.run r) := by
  cases f with
  | dup => exact flat_dup
  | swap => exact flat_swap
  | rot => exact flat_rot
  | reset => exact flat_reset
  | stash => exact flat_stash
  | depth => exact flat_depth
  | intOp op => exact flat_intOp op
  | ratioOp op => exact flat_ratioOp op
  | makeRatio => exact flat_makeRatio
  | equal => exact flat_equal
  | same => exact flat_same
  | order test => exact flat_order test
  | not => exact flat_not
  | typeOf => exact flat_typeOf
  | isa => exact flat_isa
  | is => exact flat_is
  | call => exact flat_callTop
  | choose => exact flat_branch
  | defer => exact flat_deferCall
  | len => exact flat_len
  | push => exact flat_pushItem
  | pop => exact flat_popItem
  | listGet => exact flat_listGet
  | tableGet => exact flat_tableGet
  | listPut => exact flat_listPut
  | tablePut => exact flat_tablePut
  | pair => exact flat_makePair
  | left => exact flat_left
  | right => exact flat_right
  | list => exact flat_makeList
  | table => exact flat_makeTable
  | bin => exact flat_makeBin
  | strBin => exact flat_strBin
  | str => exact flat_toStr
  | binStr => exact flat_binStr
  | iter => exact flat_makeIter
  | next => exact flat_nextItem
  | range => exact flat_range
  | filter => exact flat_filter
  | map => exact flat_map
  | zip => exact flat_zip
  | rand => exact flat_rand
  | openFile => exact flat_openFile
  | readIter => exact flat_readIter
  | write => exact flat_write
  | say => exact flat_say
  | dir recursive => exact flat_dir recursive
  | listen => exact flat_listen
  | acceptIter => exact flat_acceptIter
  | connectIter => exact flat_connectIter
  | poll => exact flat_poll
  | fiber => exact flat_makeFiber
  | fiberDone => exact flat_fiberDone
  | thread => exact flat_startThread
  | join => exact flat_join
  | raise => exact flat_raise
  | reraise => exact flat_reraise
  | errors => exact flat_errors
  | errorKind => exact flat_errorKind
  | errorMessage => exact flat_errorMessage
  | clearErrors => exact flat_clearErrors
  | construct t fields => exact flat_construct t fields
  | field i => exact flat_field i
  | setField i => exact flat_setField i
  | host f => exact flat_hostCall f
  | hostIter answers item => exact flat_pushIter _ _
  | hostPend => exact flat_pend

theorem flat_runNative (f : Native) (retPc : Nat) : Flat r (runNative r f retPc) :=
  (Flat.ask fun _ _ => rfl).bind fun _ => (Flat.alter (.goBack retPc)).bind fun _ =>
    (flat_native f).attempt.bind fun _ => (Flat.alter (.goBack _)).bind fun _ => .ofExcept _

/-! ## Parts of calls and operations -/

theorem flat_describeTop : Flat r describeTop :=
  (Flat.ask fun _ _ => rfl).bind fun _ => (Flat.askStore _).bind fun _ => .pure _

theorem flat_convert (arity : Nat) (plan : List (Nat × Value)) :
    Flat r (convert r arity plan) := by
  induction plan with
  | nil => exact .pure ()
  | cons step plan ih =>
    exact (Flat.ask fun _ _ => rfl).bind fun _ => (Flat.ask fun _ _ => rfl).bind fun _ =>
      (Flat.call _ _).bind fun _ => (Flat.orFail _ _).bind fun _ =>
        (flat_alterStack _).bind fun _ => ih

theorem flat_labelPc (l : Label) : Flat r (labelPc l) := .orFail _ _

theorem flat_callFuel : Flat r callFuel :=
  (Flat.ask fun _ _ => rfl).bind fun _ => (Flat.askStore _).bind fun _ => .pure _

theorem flat_valueOf (name : String) : Flat r (valueOf name) :=
  (Flat.ask fun _ _ => rfl).bind fun _ => .orFail _ _

theorem flat_reference (name : String) : Flat r (reference name) := by
  refine (Flat.askShared fun _ => rfl).bind fun registry => ?_
  split
  · exact .pure _
  · split
    · exact .pure _
    · exact .fail _

theorem flat_part (p : FmtPart) : Flat r (part p) := by
  cases p with
  | text s => exact .pure s
  | var name literal => exact (flat_valueOf _).bind fun _ => .askStore _

theorem flat_checkTop (t : Ty) : Flat r (checkTop t) := by
  refine (flat_peek _).bind fun v => ?_
  split
  · exact .fail _
  · exact .pure _

theorem flat_jumpPc (name : String) (label : Option Label) : Flat r (jumpPc name label) := by
  cases label with
  | some l => exact flat_labelPc l
  | none =>
    exact (Flat.askShared fun _ => rfl).bind fun _ => (Flat.orFail _ _).bind fun _ => flat_labelPc _

theorem flat_endPc (what : String) (label : Option Label) : Flat r (endPc what label) :=
  (Flat.orFail _ _).bind fun _ => flat_labelPc _

theorem flat_report (f : Fault) : Flat r (report f) := by
  refine (Flat.ask fun _ _ => rfl).bind fun tries => Flat.refuse ((Flat.note _ _).bind fun _ => ?_)
  exact .alter (.collect (· ++ [f]))

theorem flat_closeTest (message : String) : Flat r (closeTest message) := by
  refine flat_pop.bind fun v => ?_
  split
  · exact .pure _
  · exact (Flat.askStore _).bind fun _ => (flat_report _).bind fun _ => .pure _

theorem flat_loopAt? (pc : Nat) : Flat r (loopAt? pc) := .ask fun _ _ => rfl

theorem flat_closeParam (id : Nat) (template : String) : Flat r (closeParam id template) := by
  refine (Flat.ask fun _ _ => rfl).bind fun params => (Flat.orFail _ _).bind fun mark => ?_
  refine Flat.bind (.alter (.params _ fun _ _ => rfl)) fun _ => ?_
  refine (Flat.ask fun _ _ => rfl).bind fun stack => (flat_alterStack _).bind fun _ => ?_
  refine (Flat.mapM (fun v => .orFail _ _) _).bind fun args => ?_
  exact (Flat.instantiateNamed _ _).bind fun _ => (flat_push _).bind fun _ => .pure _

/-- What goes on with the next operation. -/
theorem Flat.thenGoOn {x : Run Unit} (hx : Flat r x) : Flat r (do x; return .next : Run Control) :=
  hx.bind fun _ => .pure _

end Run

/-- Whether an operation stays at one level of nesting, and calls nothing in its own place. -/
def Op.isFlat : Op → Bool
  | deref _ | call _ | bind _ | unlambda _ | exit .. | begin .. | close | closeList => false
  | «try» _ | closeTry | «for» _ | «while» _ => false
  | _ => true

namespace Run

theorem flat_exec {op : Op} (h : op.isFlat = true) : Flat r (exec r op) := by
  cases op with
  | push v => exact (flat_push v).thenGoOn
  | pushMany vs => exact (flat_pushEach vs).thenGoOn
  | drop n => exact (flat_popN n).bind fun _ => .pure _
  | check t? =>
    cases t? with
    | some t => exact (flat_checkTop t).thenGoOn
    | none => exact flat_popType.bind fun _ => (flat_checkTop _).thenGoOn
  | ref name => exact (flat_reference name).bind fun _ => (flat_push _).thenGoOn
  | get name => exact (flat_valueOf name).bind fun _ => (flat_push _).thenGoOn
  | fmt parts => exact (Flat.mapM flat_part _).bind fun _ => (flat_push _).thenGoOn
  | target l => exact .pure _
  | jump name label => exact (flat_jumpPc _ _).bind fun _ => .pure _
  | lambda body kind skip =>
    refine (flat_endPc _ _).bind fun pc => ?_
    dsimp only
    split
    · exact (Flat.ask fun _ _ => rfl).bind fun _ => (flat_newClosure _).bind fun _ =>
        (flat_push _).bind fun _ => .pure _
    · exact .pure _
  | closeTest message => exact flat_closeTest message
  | param id => exact Flat.thenGoOn (.alter (.params _ fun _ _ => rfl))
  | unparam id template => exact flat_closeParam id template
  | _ => cases h

end Run

end Catena
