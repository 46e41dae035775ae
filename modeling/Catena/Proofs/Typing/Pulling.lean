import Catena.Proofs.Typing.Making
import Catena.Run.Pull

/-!
# What iterators give

A pull of an iterator gives an item of the type that the iterator is known to give, also if it draws
on other iterators or calls back into the language, and leaves the iterator one that goes on to give
such items. This is shown kind by kind for one step, and then for the whole depth of a pull.
-/

namespace Catena

variable {W : World} {r : Reentry}

/-- Runs inside runs respect the types of values. -/
structure Reentry.Typed (r : Reentry) : Prop where
  call : ∀ W target args, (∀ v ∈ args, Value.Typed W v) →
    Run.Respects W (r.call target args) fun W' v? => ∀ v, v? = some v → v.Typed W'
  runThread : ∀ W target, Run.Respects W (r.runThread target) Run.Anything

/-- The item that a pull gave, if any, is what its type says. -/
def Pulled.Typed (W : World) : Pulled → Prop
  | .item v => v.Typed W
  | _ => True

/-- The item that a pull gave, if any, lies below a type. -/
def Pulled.Isa (item : Ty) : Pulled → Prop
  | .item v => v.isa item = true
  | _ => True

theorem Pulled.Typed.mono {W' : World} {p : Pulled} (le : W ≤ W') (h : p.Typed W) : p.Typed W' := by
  cases p with
  | item v => exact Value.Typed.mono le h
  | _ => trivial

namespace Run

/-- What a pull of an iterator answers, whatever type its items are known to have. -/
def Gave (W : World) (i : Ref) (W' : World) (p : Pulled) : Prop :=
  p.Typed W' ∧ ∀ item, W.iters[i]? = some item → p.Isa item

theorem Gave.of_le {W' W'' : World} {i : Ref} {p : Pulled} (le : W ≤ W') (h : Gave W' i W'' p) :
    Gave W i W'' p :=
  ⟨h.1, fun item known => h.2 item (le.iters i item known)⟩

/-- A way to pull iterators gives what they are known to give. -/
def Pulls (pull : Puller) : Prop :=
  ∀ W i, Respects W (pull i) (Gave W i)

/-- What a step of an iterator that gives items of a type comes to: such an item, and an iterator
that gives such items again. -/
structure Advanced (item : Ty) (W : World) (result : Pulled × Iterator) : Prop where
  typed : result.1.Typed W
  isa : result.1.Isa item
  all : result.2.All (·.Typed W)
  gives : result.2.Gives W item

/-! ## Iterators that draw on others -/

variable {pull : Puller}

theorem respects_pullWhere (hr : r.Typed) (hp : Pulls pull) (source : Ref) (test : Value)
    (fuel : Nat) :
    Respects W (pullWhere r pull source test fuel) (Gave W source) := by
  induction fuel generalizing W with
  | zero => exact .exhausted
  | succ fuel ih =>
    have again : ∀ W', W ≤ W' → Respects W' (pullWhere r pull source test fuel) (Gave W source) :=
      fun W' le => ih.mono fun _ _ _ gave => gave.of_le le
    refine (hp W source).bind fun W₁ p le gave => ?_
    cases p with
    | item v =>
      have takes : ∀ a ∈ [v], a.Typed W₁ :=
        fun a member => List.mem_singleton.1 member ▸ gave.1
      refine (hr.call W₁ test [v] takes).bind fun W₂ answer? le' _ => ?_
      cases answer? with
      | none => exact again W₂ (World.le_trans le le')
      | some answer =>
        dsimp only
        split
        · exact .pure fun _ le'' => ⟨gave.1.mono (World.le_trans le' le''), gave.2⟩
        · exact again W₂ (World.le_trans le le')
    | pending => exact .pure fun _ _ => ⟨trivial, fun _ _ => trivial⟩
    | done => exact .pure fun _ _ => ⟨trivial, fun _ _ => trivial⟩

theorem respects_pollRound (hp : Pulls pull) (todo kept : List Ref) :
    Respects W (pollRound pull todo kept) fun W' found => ∀ v, found.1 = some v → v.Typed W' := by
  induction todo generalizing W kept with
  | nil => exact .pure fun _ _ => nofun
  | cons source todo ih =>
    refine (hp W source).bind fun W₁ p _ gave => ?_
    cases p with
    | item v => exact .pure fun _ le v same => Option.some.inj same ▸ gave.1.mono le
    | pending => exact ih _
    | done => exact ih _

theorem respects_pollUntil (hp : Pulls pull) (fuel : Nat) (queue : List Ref) :
    Respects W (pollUntil pull fuel queue) fun W' found => ∀ v, found.1 = some v → v.Typed W' := by
  induction fuel generalizing W queue with
  | zero => exact .exhausted
  | succ fuel ih =>
    cases queue with
    | nil => exact .pure fun _ _ => nofun
    | cons source queue =>
      refine (respects_pollRound hp (source :: queue) []).bind fun W₁ found _ typed => ?_
      obtain ⟨_ | v, queue⟩ := found
      · exact ih queue
      · exact .pure fun _ le v same => (typed v same).mono le

/-- The pair of two values lies below the pair of two types above theirs. -/
theorem isa_pairTy {t item a b : Ty} {v w : Value} (made : t.Of .pair [v.ty, w.ty])
    (of : item.Of .pair [a, b]) (left : v.isa a = true) (right : w.isa b = true) :
    t.isa item = true := by
  refine Ty.isa_of_below ⟨_, _, made.1, of.1, rfl, ?_⟩
  rw [made.2, of.2]
  exact .cons left (.cons right .nil)

theorem respects_pairUp (hp : Pulls pull) {l right : Ref} {a b item : Ty} {p : Pulled}
    (left : W.iters[l]? = some a) (known : W.iters[right]? = some b) (of : item.Of .pair [a, b])
    (typed : p.Typed W) (isa : p.Isa a) :
    Respects W (pairUp pull l right p) (Advanced item) := by
  have gives : ∀ W', W ≤ W' → ∀ held, (∀ v, held = some v → v.isa a = true) →
      (Iterator.zip l right held).Gives W' item := fun W' le held below =>
    ⟨a, b, le.iters l a left, le.iters right b known, of, below⟩
  cases p with
  | item v =>
    refine (hp W right).bind fun W₁ q le gave => ?_
    cases q with
    | item w =>
      refine (respects_pairOf (typed.mono le) gave.1).bind fun W₂ u le' told => ?_
      have below : u.isa item = true := isa_pairTy told.2 of isa (gave.2 b known)
      exact .pure fun W₃ le'' => ⟨told.1.mono le'', below, nofun,
        gives W₃ (World.le_trans le (World.le_trans le' le'')) none nofun⟩
    | pending =>
      refine .pure fun W₂ le' => ⟨trivial, trivial, ?_, ?_⟩
      · exact fun _ same => Option.some.inj same ▸ typed.mono (World.le_trans le le')
      · exact gives W₂ (World.le_trans le le') _ fun _ same => Option.some.inj same ▸ isa
    | done =>
      exact .pure fun W₂ le' =>
        ⟨trivial, trivial, nofun, gives W₂ (World.le_trans le le') none nofun⟩
  | pending => exact .pure fun W₁ le => ⟨trivial, trivial, nofun, gives W₁ le none nofun⟩
  | done => exact .pure fun W₁ le => ⟨trivial, trivial, nofun, gives W₁ le none nofun⟩

/-! ## One step -/

theorem respects_walk (recursive : Bool) (frames : List WalkFrame) :
    Respects W (walk recursive frames) (Advanced .str) := by
  refine (Respects.askShared (P := Anything) fun _ _ _ _ => trivial).seq fun files => ?_
  cases walkStep files recursive frames with
  | some found => exact .pure fun _ _ => ⟨typed_str _, Ty.isa_refl _, trivial, rfl⟩
  | none => exact .pure fun _ _ => ⟨trivial, trivial, trivial, rfl⟩

theorem respects_askNetwork {α : Type} (request : Network → Nat → α) :
    Respects W (askNetwork request) Anything := by
  refine (Respects.askShared (P := Anything) fun _ _ _ _ => trivial).seq fun answer => ?_
  exact respects_alterHost.seq fun _ => .done answer

theorem respects_newSocket (peer : String) :
    Respects W (newSocket peer) fun W' v => v.Typed W' ∧ v.ty = .socket := by
  have puts : Respects W (Run.alloc (·.sockets.size) fun s => { s with sockets := s.sockets.push ⟨peer, false⟩ })
      Anything := .put fun W' s le typed => { typed with all := { typed.all with } }
  exact puts.bind fun _ _ _ _ => .pure fun _ _ => ⟨typed_simple (by simp [Ty.builtins]) rfl, rfl⟩

/-- A connection is an item of its own kind. -/
theorem respects_connection (peer : String) {next : Iterator} {item : Ty} (socket : item = .socket)
    (all : ∀ W', next.All (·.Typed W')) (gives : ∀ W', next.Gives W' item) :
    Respects W (do return (.item (← newSocket peer), next)) (Advanced item) := by
  refine (respects_newSocket peer).bind fun W₁ v le told => .pure fun W' le' => ?_
  have isa : v.isa item = true := by
    rw [Value.isa, told.2, socket]
    exact Ty.isa_refl _
  exact ⟨told.1.mono le', isa, all W', gives W'⟩

theorem respects_advance (hr : r.Typed) (hp : Pulls pull) {it : Iterator} {item : Ty}
    (typed : it.All (·.Typed W)) (gives : it.Gives W item) :
    Respects W (advance r pull it) (Advanced item) := by
  cases it with
  | range next stop =>
    obtain rfl : item = .int := gives
    rw [advance]
    split
    · exact .pure fun _ _ => ⟨typed_int _, Ty.isa_refl _, trivial, rfl⟩
    · exact .pure fun _ _ => ⟨trivial, trivial, trivial, rfl⟩
  | items l i =>
    have asks : Respects W (askStore fun s => (s.listAt l)[i]?) fun W' v? =>
        ∀ v, v? = some v → v.Typed W' ∧ v.isa item = true := by
      refine .askStore fun W' s le store v found => ?_
      rw [Store.listAt] at found
      cases list : s.lists[l]? with
      | none => simp [list] at found
      | some items =>
        rw [list, Option.getD_some] at found
        have member := Array.mem_of_getElem? found
        exact ⟨store.all.lists items (Array.mem_of_getElem? list) v member,
          store.lists.each l item items (le.lists l item gives) list v member⟩
    refine asks.bind fun W₁ v? le told => ?_
    have again : ∀ W', W₁ ≤ W' → (Iterator.items l (i + 1)).Gives W' item := fun W' le' =>
      (World.le_trans le le').lists l item gives
    cases v? with
    | some v => exact .pure fun W' le' => ⟨(told v rfl).1.mono le', (told v rfl).2, trivial, again W' le'⟩
    | none => exact .pure fun W' le' => ⟨trivial, trivial, trivial, again W' le'⟩
  | entries t i =>
    obtain ⟨k, v, known, of⟩ := gives
    have asks : Respects W (askStore fun s => (s.tableAt t)[i]?) fun W' e? =>
        ∀ e, e? = some e → (e.1.Typed W' ∧ e.2.Typed W') ∧ e.1.isa k = true ∧ e.2.isa v = true := by
      refine .askStore fun W' s le store e found => ?_
      rw [Store.tableAt] at found
      cases table : s.tables[t]? with
      | none => simp [table] at found
      | some entries =>
        rw [table, Option.getD_some] at found
        have member := List.mem_of_getElem? found
        exact ⟨store.all.tables entries (Array.mem_of_getElem? table) e member,
          store.tables.each t (k, v) entries (le.tables t _ known) table e member⟩
    refine asks.bind fun W₁ e? le told => ?_
    have again : ∀ W', W₁ ≤ W' → (Iterator.entries t (i + 1)).Gives W' item := fun W' le' =>
      ⟨k, v, (World.le_trans le le').tables t _ known, of⟩
    cases e? with
    | some e =>
      obtain ⟨typed, left, right⟩ := told e rfl
      refine (respects_pairOf typed.1 typed.2).bind fun W₂ u le' told => ?_
      exact .pure fun W' le'' => ⟨told.1.mono le'', isa_pairTy told.2 of left right, trivial,
        again W' (World.le_trans le' le'')⟩
    | none => exact .pure fun W' le' => ⟨trivial, trivial, trivial, again W' le'⟩
  | bytes b i =>
    obtain rfl : item = .int := gives
    refine (Respects.askStore (P := Anything) fun _ _ _ _ => trivial).seq fun byte? => ?_
    cases byte? with
    | some byte => exact .pure fun _ _ => ⟨typed_nat _, Ty.isa_refl _, trivial, rfl⟩
    | none => exact .pure fun _ _ => ⟨trivial, trivial, trivial, rfl⟩
  | chars rest =>
    obtain rfl : item = .char := gives
    cases rest with
    | nil => exact .pure fun _ _ => ⟨trivial, trivial, trivial, rfl⟩
    | cons c cs => exact .pure fun _ _ => ⟨typed_char c, Ty.isa_refl _, trivial, rfl⟩
  | units rest =>
    obtain rfl : item = .wchar := gives
    cases rest with
    | nil => exact .pure fun _ _ => ⟨trivial, trivial, trivial, rfl⟩
    | cons u us => exact .pure fun _ _ => ⟨typed_wchar u, Ty.isa_refl _, trivial, rfl⟩
  | filter source test =>
    refine (respects_pullWhere hr hp source test stepLimit).bind fun W₁ p le gave => ?_
    exact .pure fun W' le' => ⟨gave.1.mono le', gave.2 item gives,
      Value.Typed.mono (World.le_trans le le') typed, (World.le_trans le le').iters source item gives⟩
  | map source f =>
    obtain rfl : item = .any := gives
    refine (hp W source).bind fun W₁ p le gave => ?_
    have typed' : ∀ W', W₁ ≤ W' → f.Typed W' := fun W' le' =>
      Value.Typed.mono (World.le_trans le le') typed
    cases p with
    | item v =>
      have takes : ∀ a ∈ [v], a.Typed W₁ := fun a member => List.mem_singleton.1 member ▸ gave.1
      refine (hr.call W₁ f [v] takes).bind fun W₂ w? le' told => ?_
      refine (Respects.orFail (P := fun W' w => w.Typed W') fun w same W' le'' =>
        (told w same).mono le'').bind fun W₃ w le'' typed => ?_
      exact .pure fun W' le₃ => ⟨typed.mono le₃, Ty.isa_any _,
        typed' W' (World.le_trans le' (World.le_trans le'' le₃)), rfl⟩
    | pending => exact .pure fun W' le' => ⟨trivial, trivial, typed' W' le', rfl⟩
    | done => exact .pure fun W' le' => ⟨trivial, trivial, typed' W' le', rfl⟩
  | zip l right held =>
    obtain ⟨a, b, left, known, of, below⟩ := gives
    cases held with
    | some v => exact respects_pairUp (p := .item v) hp left known of (typed v rfl) (below v rfl)
    | none =>
      refine (hp W l).bind fun W₁ p le gave => ?_
      exact respects_pairUp hp (le.iters l a left) (le.iters right b known) of gave.1 (gave.2 a left)
  | random bound seed =>
    obtain rfl : item = .int := gives
    exact .pure fun _ _ => ⟨typed_nat _, Ty.isa_refl _, trivial, rfl⟩
  | readFile file =>
    obtain rfl : item = .bin := gives
    refine (Respects.askShared (P := Anything) fun _ _ _ _ => trivial).seq fun files => ?_
    refine (Respects.askStore (P := Anything) fun _ _ _ _ => trivial).seq fun handle => ?_
    split
    · exact .fail _
    · have sets (h : FileTree.Handle) : Respects W
          (alterStore fun s => { s with files := s.files.setIfInBounds file h }) Anything :=
        .alterStore fun _ _ _ typed => { typed with all := { typed.all with } }
      refine (sets _).seq fun _ => ?_
      split
      · exact .pure fun _ _ => ⟨trivial, trivial, trivial, rfl⟩
      · refine (respects_newBin _).bind fun W₁ v le told => ?_
        exact .pure fun _ le' => ⟨told.1.mono le', told.2 ▸ Ty.isa_refl _, trivial, rfl⟩
  | readSocket socket =>
    obtain rfl : item = .bin := gives
    refine (Respects.askStore (P := Anything) fun _ _ _ _ => trivial).seq fun listens => .refuse fun _ => ?_
    refine (respects_askNetwork _).seq fun answer => ?_
    split
    · exact .pure fun _ _ => ⟨trivial, trivial, trivial, rfl⟩
    · refine (respects_newBin _).bind fun W₁ v le told => ?_
      exact .pure fun _ le' => ⟨told.1.mono le', told.2 ▸ Ty.isa_refl _, trivial, rfl⟩
    · exact .pure fun _ _ => ⟨trivial, trivial, trivial, rfl⟩
    · exact .fail _
  | walkRoot path recursive =>
    obtain rfl : item = .str := gives
    refine (Respects.askShared (P := Anything) fun _ _ _ _ => trivial).seq fun files => ?_
    split
    · exact respects_walk _ _
    · exact .fail _
  | walk frames recursive =>
    obtain rfl : item = .str := gives
    exact respects_walk recursive frames
  | accept s =>
    refine (Respects.askStore (P := Anything) fun _ _ _ _ => trivial).seq fun listens => ?_
    split
    · exact .pure fun _ _ => ⟨trivial, trivial, trivial, gives⟩
    · refine (respects_askNetwork _).seq fun answer => ?_
      cases answer with
      | got peer => exact respects_connection peer gives (fun _ => trivial) fun _ => gives
      | blocked => exact .pure fun _ _ => ⟨trivial, trivial, trivial, gives⟩
      | failed message => exact .pure fun _ _ => ⟨trivial, trivial, trivial, gives⟩
  | connect addr =>
    cases addr with
    | none => exact .pure fun _ _ => ⟨trivial, trivial, trivial, gives⟩
    | some addr =>
      refine (respects_askNetwork _).seq fun answer => ?_
      cases answer with
      | got peer => exact respects_connection peer gives (fun _ => trivial) fun _ => gives
      | blocked => exact .pure fun _ _ => ⟨trivial, trivial, trivial, gives⟩
      | failed message => exact .pure fun _ _ => ⟨trivial, trivial, trivial, gives⟩
  | poll queue =>
    obtain rfl : item = .any := gives
    refine (respects_pollUntil hp stepLimit queue).bind fun W₁ found le typed => ?_
    obtain ⟨_ | v, queue⟩ := found
    · exact .pure fun _ _ => ⟨trivial, trivial, trivial, rfl⟩
    · exact .pure fun _ le' => ⟨(typed v rfl).mono le', Ty.isa_any _, trivial, rfl⟩
  | host answers pulls =>
    have given : Respects W (Run.ofExcept (answers pulls)) fun W' p => p.Typed W' ∧ p.Isa item := by
      refine .ofExcept fun p answer W' le => ?_
      cases p with
      | item v => exact ⟨Value.Typed.mono le (typed pulls v answer), gives pulls v answer⟩
      | _ => exact ⟨trivial, trivial⟩
    refine given.bind fun W₁ p le told => .pure fun W' le' => ⟨told.1.mono le', told.2, ?_, gives⟩
    exact fun k v answer => Value.Typed.mono (World.le_trans le le') (typed k v answer)

/-! ## Pulls of any depth -/

theorem respects_setIter {i : Ref} {item : Ty} (cell : IterCell) (known : W.iters[i]? = some item)
    (typed : cell.All (·.Typed W)) (gives : cell.Gives W item) :
    Respects W (setIter i cell) Anything := by
  refine .alterStore fun W' s le store => { store with all := ?_, iters := ?_ }
  · exact { store.all with
      iters := Values.set store.all.iters (IterCell.All.mono (fun _ v => v.mono le) typed) }
  · refine store.iters.set fun other found => ?_
    obtain rfl := Option.some.inj (found.symm.trans (le.iters i item known))
    exact IterCell.Gives.mono le gives

theorem respects_pullWithin (hr : r.Typed) (fuel : Nat) : Pulls (pullWithin r fuel) := by
  induction fuel with
  | zero => exact fun _ _ => .exhausted
  | succ fuel ih =>
    intro W i
    have asks : Respects W (askStore fun s => s.iters[i]?.getD .done) fun W' cell =>
        ∀ it, cell = .ready it → ∃ item, W'.iters[i]? = some item ∧
          it.All (·.Typed W') ∧ it.Gives W' item := by
      refine .askStore fun W' s le store it same => ?_
      cases found : s.iters[i]? with
      | none => simp [found] at same
      | some cell =>
        rw [found, Option.getD_some] at same
        subst same
        obtain ⟨item, known, gives⟩ := store.iters.known_of found
        exact ⟨item, known, store.all.iters _ (Array.mem_of_getElem? found), gives⟩
    refine asks.bind fun W₁ cell le told => ?_
    cases cell with
    | done => exact .pure fun _ _ => ⟨trivial, fun _ _ => trivial⟩
    | busy => exact .fail _
    | ready it =>
      obtain ⟨item, known, typed, gives⟩ := told it rfl
      have same : ∀ other, W.iters[i]? = some other → other = item := fun other found =>
        Option.some.inj ((le.iters i other found).symm.trans known)
      refine (respects_setIter .busy known trivial trivial).bind fun W₂ _ le₂ _ => ?_
      have step := respects_advance hr ih
        (Iterator.All.mono (fun _ v => Value.Typed.mono le₂ v) typed) (gives.mono le₂)
      refine step.attempt.bind fun W₃ result le₃ told => ?_
      have known₃ := (World.le_trans le₂ le₃).iters i item known
      split
      · refine (respects_setIter .done known₃ trivial trivial).bind fun _ _ _ _ => ?_
        exact .pure fun _ _ => ⟨trivial, fun _ _ => trivial⟩
      · have end_ := told _ rfl
        refine (respects_setIter (.ready _) known₃ end_.all end_.gives).bind fun _ _ le₄ _ => ?_
        exact .pure fun _ le₅ => ⟨end_.typed.mono (World.le_trans le₄ le₅), fun other found =>
          same other found ▸ end_.isa⟩
      · exact (respects_setIter .done known₃ trivial trivial).bind fun _ _ _ _ => .fail _

theorem respects_pull (hr : r.Typed) (i : Ref) : Respects W (Run.pull r i) (Gave W i) :=
  (Respects.askStore (P := Anything) fun _ _ _ _ => trivial).bind fun _ _ le _ =>
    (respects_pullWithin hr _ _ i).mono fun _ _ _ gave => gave.of_le le

theorem respects_await (hr : r.Typed) (i : Ref) (fuel : Nat) :
    Respects W (await r i fuel) fun W' v? => ∀ v, v? = some v → v.Typed W' ∧
      ∀ item, W.iters[i]? = some item → v.isa item = true := by
  induction fuel generalizing W with
  | zero => exact .exhausted
  | succ fuel ih =>
    refine (respects_pull hr i).bind fun W₁ p le gave => ?_
    cases p with
    | item v => exact .pure fun _ le' w same => by cases same; exact ⟨gave.1.mono le', gave.2⟩
    | pending =>
      exact ih.mono fun _ _ _ told v same =>
        ⟨(told v same).1, fun item known => (told v same).2 item (le.iters i item known)⟩
    | done => exact .pure fun _ _ => nofun

theorem respects_drainInto (hr : r.Typed) {i : Ref} {item : Ty} (known : W.iters[i]? = some item)
    (fuel : Nat) {items : Array Value} (old : ∀ v ∈ items, v.Typed W ∧ v.isa item = true) :
    Respects W (drainInto r i fuel items) fun W' vs => ∀ v ∈ vs, v.Typed W' ∧ v.isa item = true := by
  induction fuel generalizing W items with
  | zero => exact .exhausted
  | succ fuel ih =>
    refine (respects_await hr i stepLimit).bind fun W₁ v? le told => ?_
    have kept : ∀ W', W₁ ≤ W' → ∀ v ∈ items, v.Typed W' ∧ v.isa item = true := fun W' le' v member =>
      ⟨(old v member).1.mono (World.le_trans le le'), (old v member).2⟩
    cases v? with
    | none => exact .pure kept
    | some v =>
      refine ih (le.iters i item known) (Values.pushed (kept W₁ W₁.le_refl) ?_)
      exact ⟨(told v rfl).1, (told v rfl).2 item known⟩

/-- What is collected from a value are items of the type that the value's type says they have. -/
theorem respects_drain (hr : r.Typed) {seq : Value} (typed : seq.Typed W) :
    Respects W (drain r seq) fun W' vs => ∀ v ∈ vs, v.Typed W' ∧ v.isa seq.ty.elem = true :=
  (respects_iterate typed).bind fun _ _ _ known => respects_drainInto hr known stepLimit (by simp)

end Run

end Catena
