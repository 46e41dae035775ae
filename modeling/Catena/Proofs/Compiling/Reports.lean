import Catena.Proofs.Compiling.Amends
import Catena.Proofs.Compiling.Mistakes
import Catena.Proofs.Layout.Compiled

/-!
# Where faults of a compilation are placed

A fault of the compiler that has a place is that of a token of the source that it is about, or of a
character that begins no token (`reports_upTo`). The operations made on the way are raw: values are
pushed one by one, and a name that is still to be looked up is not that of an instance.
-/

namespace Catena

/-- An operation as a source is compiled to it. -/
def Op.Raw : Op → Prop
  | .pushMany _ => False
  | .deref name => TypeExpr.looksGeneric name = false
  | _ => True

/-- A compilation under way has made raw operations, and knows the usual forms. -/
structure Compiler.Raw (c : Compiler) : Prop where
  standard : c.shared.registry.Standard
  ops : ∀ op ∈ c.ops.toList, op.Raw

namespace Compile

/-- A fault with a place: that of a token which it is about, or of a character that begins no token. -/
inductive Reported (source : String) : Fault → Prop
  | token {t : Token} {f : Fault} : t.Of source → t.Wrong f → Reported source (f.locate t.pos)
  | stray {c : Char} {pos : Nat} {after : List Char} {f : Fault} : Token.Stray after c f →
      (Token.ofChars [c] pos).Stands source 0 → Reported source (f.locate pos)

/-- A fault while a token is compiled: it has a place already, or gets that of the token. -/
def About (source : String) (t : Token) (f : Fault) : Prop :=
  Reported source f ∨ t.Wrong f

/-- What is said when the word that closes a block is missing. -/
def lacking (closing : String) : Fault :=
  if closing = ";" then Fault.missingSemicolon else Fault.missingClosing closing

/-- Tokens of the source. -/
abbrev Tokens (source : String) (ts : List Token) : Prop :=
  ∀ t ∈ ts, t.Of source

variable {α β : Type} {source : String} {t : Token} {ts : List Token} {f : Fault} {c d : Compiler}
  {P P' : Fault → Prop} {Q : α → Prop} {R : β → Prop} {x : Compile α}

theorem Stray.unplaced {after : List Char} {c : Char} (h : Token.Stray after c f) : f.Unplaced := by
  cases h <;> exact ⟨rfl, nofun⟩

theorem Reported.placed (h : Reported source f) : f.pos ≠ none ∧ f.kind ≠ .passLimit := by
  cases h with
  | token _ wrong =>
    obtain ⟨none, kind⟩ := wrong.unplaced
    exact ⟨by simp [Fault.locate, none], kind⟩
  | stray stray _ =>
    obtain ⟨none, kind⟩ := Stray.unplaced stray
    exact ⟨by simp [Fault.locate, none], kind⟩

/-- What a text within the source cannot be read for. -/
theorem reported_of_scan {text : String} {offset : Nat} (read : Token.scan offset text.toList = .error f)
    (inner : ∀ t : Token, t.Stands text offset → t.Stands source 0) : Reported source f := by
  obtain ⟨before, c, after, g, whole, stray, rfl⟩ := Token.strays_of_scan read
  refine .stray stray (inner _ ?_)
  rw [← String.ofList_toList (s := text), whole, Token.stands_iff]
  exact ⟨before, after, by simp, rfl⟩

/-! ## Steps -/

/-- From a raw state the step goes on to one and answers as told, or ends with such a fault. -/
def Reports (P : Fault → Prop) (Q : α → Prop) (x : Compile α) : Prop :=
  ∀ c, c.Raw → (∀ a d, x c = .ok a d → d.Raw ∧ Q a) ∧ ∀ f d, x c = .error (.fault f) d → P f

theorem Reports.bind {k : α → Compile β} (hx : Reports P Q x) (hk : ∀ a, Q a → Reports P R (k a)) :
    Reports P R (x >>= k) := by
  intro c raw
  obtain ⟨goes, fails⟩ := hx c raw
  simp only [Bind.bind, EStateM.bind]
  cases ran : x c with
  | ok a d =>
    obtain ⟨raw, holds⟩ := goes a d ran
    exact hk a holds d raw
  | error e d => exact ⟨nofun, fun f d failed => by cases failed; exact fails f _ ran⟩

theorem Reports.mono {Q' : α → Prop} (h : Reports P Q x) (faults : ∀ f, P f → P' f)
    (answers : ∀ a, Q a → Q' a) : Reports P' Q' x := by
  intro c raw
  obtain ⟨goes, fails⟩ := h c raw
  exact ⟨fun a d ok => (goes a d ok).imp_right (answers a), fun f d failed => faults f (fails f d failed)⟩

/-- A step that goes on without adding operations. -/
theorem Reports.silent (keeps : Keeps x) (goes : ∀ c, ∃ a d, x c = .ok a d ∧ d.ops = c.ops ∧ Q a) :
    Reports P Q x := by
  intro c raw
  obtain ⟨a, d, ran, ops, holds⟩ := goes c
  refine ⟨fun b e ok => ?_, fun f e failed => ?_⟩
  · obtain ⟨rfl, rfl⟩ := EStateM.Result.ok.inj (ran.symm.trans ok)
    exact ⟨⟨(keeps.grown ran).standard raw.standard, by rw [ops]; exact raw.ops⟩, holds⟩
  · cases ran.symm.trans failed

theorem Reports.pure {a : α} (h : Q a) : Reports P Q (Pure.pure a) :=
  .silent (.pure a) fun c => ⟨a, c, rfl, rfl, h⟩

theorem Reports.fail (h : P f) : Reports P Q (Compile.fail f : Compile α) :=
  fun _ _ => ⟨nofun, fun _ _ failed => by cases failed; exact h⟩

theorem Reports.exhausted : Reports P Q (Compile.exhausted : Compile α) := by
  intro c _
  refine ⟨fun a d ok => ?_, fun f d failed => ?_⟩
  · cases ok
  · cases failed

theorem Reports.ofExcept {e : Except Fault α} (answers : ∀ a, e = .ok a → Q a)
    (faults : ∀ f, e = .error f → P f) : Reports P Q (Compile.ofExcept e) := by
  cases e with
  | ok a => exact .pure (answers a rfl)
  | error f => exact .fail (faults f rfl)

theorem Reports.refuse {refused : Prop} [Decidable refused] {k : Unit → Compile α}
    (h : refused → P f) (hk : ¬ refused → Reports P Q (k ())) :
    Reports P Q (if refused then Compile.fail f >>= k else k ()) := by
  split
  next is => exact (Reports.fail (Q := fun _ => False) (h is)).bind fun _ impossible => impossible.elim
  next is => exact hk is

/-- Faults of a step that have no place get that of the token they are about. -/
theorem Reports.located (is : t.Of source) (h : Reports (About source t) Q x) :
    Reports (Reported source) Q (Compile.located t.pos x) := by
  intro c raw
  obtain ⟨goes, fails⟩ := h c raw
  refine ⟨fun a d ok => goes a d (located_ok ok), fun f d failed => ?_⟩
  simp only [Compile.located] at failed
  split at failed
  next => cases failed
  next g e ran =>
    cases failed
    rcases fails g _ ran with reported | wrong
    · rwa [Fault.locate_same reported.placed.1]
    · exact .token is wrong
  next => cases failed

theorem Reports.about (h : Reports (Reported source) Q x) : Reports (About source t) Q x :=
  h.mono (fun _ => .inl) fun _ => id

theorem Reports.mapM {γ : Type} {g : γ → Compile β} {xs : List γ}
    (h : ∀ a ∈ xs, Reports P (fun _ => True) (g a)) : Reports P (fun _ => True) (xs.mapM g) := by
  induction xs with
  | nil => rw [List.mapM_nil]; exact .pure trivial
  | cons a xs ih =>
    obtain ⟨first, rest⟩ := List.forall_mem_cons.1 h
    rw [List.mapM_cons]
    exact first.bind fun _ _ => (ih rest).bind fun _ _ => .pure trivial

theorem reports_freshId : Reports P (fun _ => True) freshId :=
  .silent keeps_freshId fun _ => ⟨_, _, rfl, rfl, trivial⟩

theorem reports_note (phase : Phase) (level : Log.Level) (message : Unit → String) :
    Reports P (fun _ => True) (note phase level message) :=
  .silent (keeps_note _ _ _) fun _ => ⟨_, _, rfl, rfl, trivial⟩

theorem reports_emit (op : Op) (h : op.Raw := by trivial) : Reports P (fun _ => True) (emit op) := by
  intro c raw
  obtain ⟨d, goes⟩ : ∃ d, emit op c = .ok () d := ⟨_, rfl⟩
  refine ⟨fun u e ok => ⟨⟨(keeps_emit op).grown ok |>.standard raw.standard, fun o is => ?_⟩, trivial⟩,
    fun f e failed => nomatch goes.symm.trans failed⟩
  rw [(emit_ok ok).added, List.mem_append] at is
  exact is.elim (raw.ops o) fun new => List.mem_singleton.1 new ▸ h

theorem reports_registry {make : Registry → Except Fault β × Registry}
    (gains : ∀ r : Registry, r.Gains (make r).2) (faults : ∀ r f, (make r).1 = .error f → P f) :
    Reports P (fun _ => True) (do
      let (b, registry) ← ask fun s => make s.registry
      alter fun s => { s with registry }
      Compile.ofExcept b) := by
  intro c raw
  have keeps := keeps_registry gains (fun b : Except Fault β => Keeps.ofExcept b)
  refine ⟨fun b d ok => ?_, fun f d failed => ?_⟩
  · have grown := keeps.grown ok
    change Compile.ofExcept (make c.shared.registry).1
      { c with shared := { c.shared with registry := (make c.shared.registry).2 } } = .ok b d at ok
    obtain rfl := ofExcept_same ok
    exact ⟨⟨grown.standard raw.standard, raw.ops⟩, trivial⟩
  · change Compile.ofExcept (make c.shared.registry).1
      { c with shared := { c.shared with registry := (make c.shared.registry).2 } } = .error (.fault f) d at failed
    cases made : (make c.shared.registry).1 with
    | ok => rw [made] at failed; cases failed
    | error g =>
      rw [made] at failed
      cases failed
      exact faults _ _ made

theorem reports_tokens {text : String} {offset : Nat}
    (answers : ∀ ts, Token.scan offset text.toList = .ok ts → Tokens source ts)
    (inner : ∀ t : Token, t.Stands text offset → t.Stands source 0) :
    Reports (Reported source) (Tokens source) (tokens text offset) :=
  (reports_note _ _ _).bind fun _ _ => (Reports.ofExcept answers fun _ read => reported_of_scan read inner).bind
    fun _ all => (reports_note _ _ _).bind fun _ _ => .pure all

/-! ## Types -/

/-- A type that is written as a token. -/
theorem reports_typeAt {text : String} {pos : Nat} (is : Token.Of source ⟨text, pos⟩) :
    Reports (Reported source) (fun _ => True) (typeAt text pos) := by
  refine Reports.located is ?_
  cases read : TypeExpr.parse text with
  | error f => exact .fail (.inr (.misread read))
  | ok e =>
    exact reports_registry (fun r => (e.resolve_adds r).gains) fun r f failed => .inr (.type read failed)

mutual

/-- The operations of a part of the type that the token stands for. -/
theorem reports_typeOps {whole : TypeExpr} (read : TypeExpr.parse t.text = .ok whole) :
    (e : TypeExpr) → TypeExpr.Part e whole → e.Worded (fun name => TypeExpr.looksGeneric name = false) →
    Reports (About source t) (fun _ => True) (typeOps e)
  | .named name, _, .named plain => by rw [typeOps]; exact reports_emit _ plain
  | .generic name args, part, .generic _ worded => by
    rw [typeOps]
    exact reports_freshId.bind fun _ _ => (reports_emit _).bind fun _ _ =>
      (reports_typeOpsEach read args (fun e is => (TypeExpr.Part.arg is .whole).trans part) worded).bind
        fun _ _ => reports_emit _
  | .same n, part, _ => Reports.fail (.inr (.signatureOnly read part))
  | .argOf n k, part, _ => Reports.fail (.inr (.signatureOnly read part))

theorem reports_typeOpsEach {whole : TypeExpr} (read : TypeExpr.parse t.text = .ok whole) :
    (es : List TypeExpr) → (∀ e ∈ es, TypeExpr.Part e whole) →
    (∀ e ∈ es, e.Worded (fun name => TypeExpr.looksGeneric name = false)) →
    Reports (About source t) (fun _ => True) (typeOpsEach es)
  | [], _, _ => by rw [typeOpsEach]; exact .pure trivial
  | e :: es, parts, worded => by
    obtain ⟨first, rest⟩ := List.forall_mem_cons.1 parts
    obtain ⟨plain, others⟩ := List.forall_mem_cons.1 worded
    rw [typeOpsEach]
    exact (reports_typeOps read e first plain).bind fun _ _ => reports_typeOpsEach read es rest others

end

/-! ## Forms -/

theorem reports_expect (is : t.Of source) (what : String) (all : Tokens source ts) :
    Reports (Reported source) (fun p => p.1.Of source ∧ Tokens source p.2) (expect t what ts) := by
  cases ts with
  | nil => exact .fail (.token is .expects)
  | cons u ts => exact .pure (List.forall_mem_cons.1 all)

/-- An argument as it stands at a token of the source. -/
def Argued (source : String) (arg : TypeExpr × Nat) : Prop :=
  ∃ t : Token, t.Of source ∧ TypeExpr.parse t.text = .ok arg.1 ∧ t.pos = arg.2

theorem reports_signature (is : t.Of source) (all : Tokens source ts) : Reports (Reported source)
    (fun p => (∀ arg ∈ p.1, Argued source arg) ∧ Tokens source p.2) (signature t ts) := by
  induction ts with
  | nil => exact .fail (.token is .expects)
  | cons u ts ih =>
    obtain ⟨here, rest⟩ := List.forall_mem_cons.1 all
    rw [signature]
    dsimp only
    split
    · exact .pure ⟨List.forall_mem_nil _, rest⟩
    · have read : Reports (Reported source) (fun e => TypeExpr.parse u.text = .ok e)
          (located u.pos (ofExcept (TypeExpr.parse u.text))) :=
        .located here (.ofExcept (fun _ => id) fun _ misread => .inr (.misread misread))
      refine read.bind fun e written => (ih rest).bind fun p later => .pure ⟨?_, later.2⟩
      exact List.forall_mem_cons.2 ⟨⟨u, here, written, rfl⟩, later.1⟩

theorem reports_argAt (arity : Nat) {arg : TypeExpr × Nat} (h : Argued source arg) :
    Reports (Reported source) (fun _ => True) (argAt arity arg.1 arg.2) := by
  obtain ⟨e, pos⟩ := arg
  obtain ⟨t, is, read, rfl⟩ := h
  have checked : Reports (About source t) (fun _ => True) (checkReference arity e) := by
    unfold checkReference
    split
    · split
      · exact .fail (.inr (.reference read))
      · exact .pure trivial
    · split
      · exact .fail (.inr (.reference read))
      · exact .pure trivial
    · exact .pure trivial
  exact .located is (checked.bind fun _ _ => reports_registry (fun r => (e.toArg_adds r).gains)
    fun r f failed => .inr (.type read (TypeExpr.toArg_fault failed)))

theorem reports_fields (is : t.Of source) (seen : List String) (all : Tokens source ts) :
    Reports (Reported source) (fun p => Tokens source p.2) (fields t seen ts) := by
  induction ts generalizing seen with
  | nil => exact .fail (.token is .expects)
  | cons u ts ih =>
    obtain ⟨here, rest⟩ := List.forall_mem_cons.1 all
    have typed {name : String} {type? : Option String} (split : splitAtMark ':' u.text = (name, type?)) :
        Reports (Reported source) (fun _ => True) (fieldType (u.pos + name.utf8ByteSize + 1) type?) := by
      cases type? with
      | some type => exact reports_typeAt (.field here split)
      | none => exact .pure trivial
    rw [fields]
    dsimp only
    split
    · exact .pure rest
    · exact (typed rfl).bind fun _ _ => .refuse (fun _ => .token here .field) fun _ =>
        (ih _ rest).bind fun _ left => .pure left

theorem addStructFuncs_goes (fs : List (String × List Arg × Safety × Native)) (c : Compiler) :
    ∃ d, addStructFuncs fs c = .ok () d ∧ d.ops = c.ops := by
  induction fs generalizing c with
  | nil => exact ⟨c, rfl, rfl⟩
  | cons f fs ih => exact ih _

theorem reports_structForm (is : t.Of source) (all : Tokens source ts) :
    Reports (Reported source) (Tokens source) (structForm t ts) := by
  refine (reports_expect is _ all).bind fun (name, ts) ⟨named, left⟩ =>
    (reports_fields is [] left).bind fun (fs, ts) left => ?_
  change Reports (Reported source) (Tokens source) (Likeness.declaring name fs ts)
  intro c raw
  have keeps : Keeps (Likeness.declaring name fs ts) := keeps_declare name fs ts
  cases made : c.shared.declareType name.text [.struct] (.record name.text (fs.map (·.1))) with
  | error f =>
    have failed : Likeness.declaring name fs ts c = .error (.fault (f.locate name.pos)) c := by
      simp only [Likeness.declaring, Compile.located, Bind.bind, EStateM.bind, ask, made]
      rfl
    obtain rfl : f = Fault.typeTaken name.text := by
      unfold Shared.declareType Registry.declareType at made
      split at made
      · rename_i failed
        split at failed
        · exact (Except.error.inj made).symm.trans (Except.error.inj failed).symm
        · cases failed
      · cases made
    refine ⟨fun _ _ ok => ?_, fun g d fails => ?_⟩
    · cases failed.symm.trans ok
    · cases failed.symm.trans fails
      exact .token named .taken
  | ok both =>
    obtain ⟨d, added, ops⟩ := addStructFuncs_goes (structFuncs both.1 fs) { c with shared := both.2 }
    have done : Likeness.declaring name fs ts c = .ok ts d := by
      rw [Likeness.declaring_ok made]
      simp only [Bind.bind, EStateM.bind, added]
      rfl
    refine ⟨fun us e ok => ?_, fun g e fails => ?_⟩
    · obtain ⟨rfl, rfl⟩ := EStateM.Result.ok.inj (done.symm.trans ok)
      exact ⟨⟨(keeps.grown done).standard raw.standard, by rw [ops]; exact raw.ops⟩, left⟩
    · cases done.symm.trans fails

theorem reports_hostForm (is : t.Of source) (take : Nat) (all : Tokens source ts) :
    Reports (Reported source) (Tokens source) (hostForm t take ts) := by
  induction take generalizing ts with
  | zero => exact .pure all
  | succ take ih =>
    exact (reports_expect is _ all).bind fun _ left => (reports_emit _).bind fun _ _ => ih left.2

variable {block : Block}

/-- The block leaves some of its tokens over. It reports a fault with a place, or that the word is missing
that closes it. -/
def Block.Reports (source : String) (block : Block) : Prop :=
  ∀ closing ts, Tokens source ts → Compile.Reports
    (fun f => Reported source f ∨ ∃ word, closing = some word ∧ f = lacking word) (Tokens source)
    (block closing ts)

section

variable (hb : Block.Reports source block) (is : t.Of source) (all : Tokens source ts)

include hb

/-- Within a token whose block it is, the block reports what is about the token. -/
theorem Block.Reports.within {closing : Option String} (all : Tokens source ts)
    (lack : ∀ word, closing = some word → t.Wrong (lacking word)) :
    Compile.Reports (About source t) (Tokens source) (block closing ts) :=
  (hb closing ts all).mono (fun _ fault => fault.imp_right fun ⟨word, closes, same⟩ =>
    same ▸ lack word closes)
    fun _ => id

/-- A form that ends with a semicolon. -/
theorem Block.Reports.ended (all : Tokens source ts) (lack : t.Wrong Fault.missingSemicolon) :
    Compile.Reports (About source t) (Tokens source) (block (some ";") ts) :=
  hb.within all fun _ same => Option.some.inj same ▸ lack

include all

theorem reports_ownBlock {closing : String} (lack : t.Wrong (lacking closing)) (op : Op)
    (raw : op.Raw := by trivial) :
    Reports (About source t) (Tokens source) (ownBlock block closing op ts) :=
  (reports_emit _).bind fun _ _ => (hb.within all fun _ same => Option.some.inj same ▸ lack).bind
    fun _ left => (reports_emit op raw).bind fun _ _ => .pure left

theorem reports_lambda (name : Option String) (kind : LambdaKind) (closing : Option String)
    (lack : ∀ word, closing = some word → t.Wrong (lacking word)) :
    Reports (About source t) (fun p => Tokens source p.2) (lambda block name kind closing ts) :=
  reports_freshId.bind fun _ _ => (reports_emit _).bind fun _ _ => (hb.within all lack).bind
    fun _ left => (reports_emit _).bind fun _ _ => .pure left

/-- A lambda whose body becomes that of a function or a conversion. -/
theorem reports_define (name : Option String) (kind : LambdaKind) (define : LambdaDef → Compiler → Compiler)
    (ops : ∀ body c, (define body c).ops = c.ops) (shared : ∀ body c, (define body c).shared = c.shared)
    (lack : t.Wrong Fault.missingSemicolon) :
    Reports (About source t) (Tokens source) (do
      let (body, ts) ← lambda block name kind (some ";") ts
      fun c => .ok ts (define body c)) := by
  have ended (word : String) (same : some ";" = some word) : t.Wrong (lacking word) :=
    Option.some.inj same ▸ lack
  refine (reports_lambda hb all name kind _ ended).bind fun (body, rest) left c raw => ?_
  refine ⟨fun us d ok => ?_, fun f d failed => by cases failed⟩
  cases ok
  exact ⟨⟨by rw [shared]; exact raw.standard, by rw [ops]; exact raw.ops⟩, left⟩

include is

theorem reports_funcBody (name : Token) (lack : t.Wrong Fault.missingSemicolon) :
    Reports (About source t) (Tokens source) (funcBody block t name ts) := by
  refine (reports_signature is all).about.bind fun (exprs, ts) ⟨args, left⟩ => ?_
  refine (Reports.mapM fun arg member => (reports_argAt exprs.length (args arg member)).about).bind
    fun args _ => ?_
  have rest : Tokens source
      (if (ts.head?.bind fun t => Safety.ofName? t.text).isSome then ts.drop 1 else ts) := by
    split
    · exact fun u member => left u (List.mem_of_mem_drop member)
    · exact left
  exact reports_define hb rest _ _ (fun body c =>
    { c with funcs := c.funcs ++ [⟨name.text, args, _, body⟩] }) (fun _ _ => rfl) (fun _ _ => rfl) lack

theorem reports_convForm (lack : t.Wrong Fault.missingSemicolon) :
    Reports (About source t) (Tokens source) (convForm block t ts) := by
  refine (reports_expect is _ all).about.bind fun (first, ts) ⟨here, left⟩ =>
    (reports_expect is _ left).about.bind fun (second, ts) ⟨there, left⟩ =>
      (reports_typeAt here).about.bind fun source _ => (reports_typeAt there).about.bind fun target _ => ?_
  exact reports_define hb left _ _ (fun body c =>
    { c with convs := c.convs ++ [⟨source, target, body⟩] }) (fun _ _ => rfl) (fun _ _ => rfl) lack

/-- The form that the token begins. -/
theorem reports_form {m : Macro} (raw : ∀ op, m = .word op → op.Raw)
    (lack : m.hasBody = true → t.Wrong Fault.missingSemicolon) :
    Reports (About source t) (Tokens source) (form block t ts m) := by
  cases m with
  | func =>
    refine (reports_expect is _ all).about.bind fun (name, ts) ⟨_, left⟩ =>
      (reports_expect is _ left).about.bind fun (opening, ts) ⟨here, left⟩ => ?_
    exact .refuse (fun other => .inl (.token here (.opening other))) fun _ =>
      reports_funcBody hb is left name (lack rfl)
  | binding =>
    refine (reports_expect is _ all).about.bind fun (name, ts) ⟨here, left⟩ =>
      .refuse (fun bad => .inl (.token here (.binding bad))) fun _ => ?_
    exact (reports_ownBlock hb left (lack rfl) _).bind fun _ left => (reports_emit _).bind fun _ _ => .pure left
  | struct => exact (reports_structForm is all).about
  | conv => exact reports_convForm hb is all (lack rfl)
  | test =>
    refine (reports_expect is _ all).about.bind fun (message, ts) ⟨here, left⟩ =>
      .refuse (fun other => .inl (.token here (.message (by simpa using other)))) fun _ => ?_
    exact (reports_ownBlock hb left (lack rfl) _).bind fun _ left => (reports_emit _).bind fun _ _ => .pure left
  | attempt =>
    exact reports_freshId.bind fun _ _ => (reports_emit _).bind fun _ _ => (hb.ended all (lack rfl)).bind
      fun _ left => (reports_emit _).bind fun _ _ => (reports_emit _).bind fun _ _ => .pure left
  | unrestricted =>
    exact (reports_emit _).bind fun _ _ => (hb.ended all (lack rfl)).bind fun _ left =>
      (reports_emit _).bind fun _ _ => .pure left
  | defer =>
    exact (reports_lambda hb all _ _ _ fun _ same => Option.some.inj same ▸ lack rfl).bind fun _ left =>
      (reports_emit _).bind fun _ _ => .pure left
  | word op => exact (reports_emit op (raw op rfl)).bind fun _ _ => .pure all
  | exit kind => exact (reports_freshId.bind fun _ _ => reports_emit _).bind fun _ _ => .pure all
  | host take => exact (reports_hostForm is take all).about

end

/-! ## Tokens -/

theorem wordOp_raw {op : Op} (h : wordOp t = some (.ok op)) : op.Raw :=
  wordOp_cases h (fun _ _ => trivial) (fun _ => trivial) (fun _ => trivial) (fun _ => trivial)
    (fun _ => trivial) fun _ _ => trivial

theorem builtin_raw {word : String} {op : Op} (h : (word, Macro.word op) ∈ Macro.builtins) : op.Raw := by
  simp only [Macro.builtins, List.mem_cons, Prod.mk.injEq, Macro.word.injEq, List.not_mem_nil, or_false,
    reduceCtorEq, and_false, false_or] at h
  rcases h with ⟨-, rfl⟩ | ⟨-, rfl⟩ | ⟨-, rfl⟩ | ⟨-, rfl⟩ | ⟨-, rfl⟩ | ⟨-, rfl⟩ | ⟨-, rfl⟩ <;> trivial

/-- A word that begins a form with a body is the name of that form. -/
theorem findForm_hasBody {word : String} {m : Macro} (standard : c.shared.registry.Standard)
    (h : findForm word c = .ok (some m) d) (body : m.hasBody = true) : (word, m) ∈ Macro.builtins := by
  rcases findForm_known standard h with ⟨name, builtin, rfl | takes⟩ | ⟨take, rfl⟩
  · exact builtin
  · cases m <;> simp [Macro.takesDepth, Macro.hasBody] at takes body
  · cases body

/-- The tokens between braces are tokens of the source too. -/
theorem reports_braces (hb : Block.Reports source block) (is : t.Of source) (brace : t.isBrace = true) :
    Reports (About source t) (fun _ => True) (braces block t) := by
  have scanned (us : List Token) (read : Token.scan (t.pos + 1) (String.ofList t.inner).toList = .ok us) :
      Tokens source us := by
    rw [String.toList_ofList] at read
    exact fun u member => .inside is brace read member
  have inner (u : Token) (stands : u.Stands (String.ofList t.inner) (t.pos + 1)) : u.Stands source 0 := by
    obtain ⟨back, whole⟩ := Token.isBrace_text brace
    exact is.stands.within whole stands
  exact (reports_tokens scanned inner).about.bind fun us inside =>
    (reports_lambda hb inside none .closure none nofun).bind fun _ _ => .pure trivial

/-- The operations of the type that a token is. -/
theorem reports_typeToken (all : Tokens source ts) :
    Reports (About source t) (Tokens source) (do
      typeOps (← ofExcept (TypeExpr.parse t.text))
      return ts) := by
  have read : Reports (About source t) (fun e => TypeExpr.parse t.text = .ok e)
      (ofExcept (TypeExpr.parse t.text)) :=
    .ofExcept (fun _ => id) fun _ misread => .inr (.misread misread)
  refine read.bind fun e written => ?_
  exact (reports_typeOps written e .whole (TypeExpr.parse_worded (fun _ => id) written)).bind fun _ _ =>
    .pure all

theorem reports_token (hb : Block.Reports source block) (is : t.Of source) (all : Tokens source ts) :
    Reports (About source t) (Tokens source) (token block t ts) := by
  unfold token
  split
  next brace => exact (reports_braces hb is brace).bind fun _ _ => .pure all
  split
  next opens => exact reports_ownBlock hb all (.unclosed (.inl ⟨opens, rfl⟩)) _
  split
  next opens => exact reports_ownBlock hb all (.unclosed (.inr ⟨opens, rfl⟩)) _
  split
  next closes => exact .fail (.inr (.unmatched (by simpa using closes)))
  split
  next ends => exact .fail (.inr (.semicolon ends))
  split
  next op word =>
    cases op with
    | error f =>
      exact (Reports.fail (Q := fun _ => False) (.inr (.literal word))).bind fun _ none => none.elim
    | ok op => exact (reports_emit op (wordOp_raw word)).bind fun _ _ => .pure all
  split
  next => exact reports_typeToken all
  next special =>
    intro c raw
    obtain ⟨m?, found⟩ : ∃ m?, findForm t.text c = .ok m? c := ⟨_, rfl⟩
    simp only [Bind.bind, EStateM.bind, found]
    cases m? with
    | some m =>
      refine reports_form hb is all (fun op same => ?_) (fun body => ?_) c raw
      · subst same
        obtain ⟨name, builtin⟩ := findForm_op raw.standard found
        exact builtin_raw builtin
      · exact .unended (findForm_hasBody raw.standard found body) body
    | none =>
      have plain : Reports (About source t) (Tokens source) (do emit (.deref t.text); return ts) :=
        (reports_emit (.deref t.text) (eq_false_of_ne_true special)).bind fun _ _ => .pure all
      exact plain c raw

theorem reports_upTo (source : String) (fuel : Nat) : Block.Reports source (upTo fuel) := by
  -- braces hold a text of their own, so the induction is on the depth and not on the tokens
  induction fuel with
  | zero => exact fun _ _ _ => .exhausted
  | succ fuel ih =>
    intro closing ts all
    cases ts with
    | nil =>
      cases closing with
      | none => exact .pure all
      | some closing => exact .fail (.inr ⟨closing, rfl, rfl⟩)
    | cons t ts =>
      obtain ⟨is, rest⟩ := List.forall_mem_cons.1 all
      rw [upTo]
      split
      · exact .pure rest
      · exact ((Reports.located is (reports_token ih is rest)).mono (fun _ => .inl) fun _ => id).bind
          fun _ left => ih _ _ left

/-! ## Whole texts -/

/-- The operations that a text is compiled to, as they are before names are looked up. -/
def rawOps (text : String) (base : Nat) : Compile (List Op) := do
  let ts ← tokens text 0
  note .compiler .debug fun _ => s!"compiling {ts.length} tokens at base {base}"
  let _ ← upTo (2 * text.length + 2) none ts
  return (← get).ops.toList

theorem unplaced_eq (text : String) (base : Nat) : unplaced text base = rawOps text base >>= settle := by
  simp only [unplaced, rawOps, bind_assoc, pure_bind]

theorem reports_rawOps (text : String) (base : Nat) :
    Reports (Reported text) (fun ops => ∀ op ∈ ops, op.Raw) (rawOps text base) := by
  have read : Reports (Reported text) (Tokens text) (tokens text 0) :=
    reports_tokens (fun ts scanned t is => .outer scanned is) fun t stands => stands
  refine read.bind fun ts all => (reports_note _ _ _).bind fun _ _ => ?_
  have compiled := reports_upTo text (2 * text.length + 2) none ts all
  refine (compiled.mono (fun f fault => fault.resolve_right ?_) fun _ => id).bind fun _ _ => ?_
  · rintro ⟨word, none, -⟩
    cases none
  · intro c raw
    refine ⟨fun ops d ok => ?_, fun f d failed => ?_⟩
    · cases ok
      exact ⟨raw, raw.ops⟩
    · cases failed

theorem addSkips_fault {named : List String} {ops : List Op} (h : addSkips named ops = .error f) :
    f.Unplaced := by
  fun_induction addSkips named ops with
  | case1 => cases h
  | case5 => obtain rfl := Except.error.inj h; exact ⟨rfl, nofun⟩
  | case2 _ _ _ _ ih => exact ih (map_fault h)
  | case3 _ _ _ ih => exact ih (map_fault h)
  | case4 _ _ _ _ ih => exact ih (map_fault h)
  | case6 _ _ _ _ _ ih => exact ih (map_fault h)
  | case7 _ _ _ _ _ _ ih => exact ih (map_fault h)

/-- An instance was asked for that cannot be made. -/
def Refused (f : Fault) : Prop :=
  ∃ (r : Registry) (template : String) (args : List Ty), r.instantiateNamed template args = .error f

theorem Refused.unplaced (h : Refused f) : f.Unplaced := by
  obtain ⟨_, _, _, made⟩ := h
  exact Registry.instantiateNamed_fault made

theorem rewriteOp_fault {fold : Bool} {done : List Op} {op : Op} {e : Halt}
    (h : rewriteOp fold done op c = .error e d) : ∃ f, Refused f ∧ e = .fault f := by
  unfold rewriteOp at h
  split at h
  · cases h
  · cases h
  · cases h
  · cases h
  · cases h
  · generalize (if fold = true then takeType? done else none) = taken at h
    cases taken <;> cases h
  · rename_i id template
    generalize (if fold = true then bracketTypes? id [] done else none) = taken at h
    cases taken with
    | none => cases h
    | some both =>
      obtain ⟨args, rest⟩ := both
      simp only [Bind.bind, EStateM.bind, ask] at h
      cases made : c.shared.registry.instantiateNamed template args with
      | error g =>
        rw [made] at h
        cases h
        exact ⟨g, ⟨_, _, _, made⟩, rfl⟩
      | ok =>
        rw [made] at h
        cases h
  · cases h

theorem rewrite_fault {fold changed : Bool} {done ops : List Op} {e : Halt}
    (h : rewrite fold changed done ops c = .error e d) : ∃ f, Refused f ∧ e = .fault f := by
  induction ops generalizing c changed done with
  | nil => cases h
  | cons op ops ih =>
    simp only [rewrite, Bind.bind, EStateM.bind] at h
    cases ran : rewriteOp fold done op c with
    | error e e' =>
      rw [ran] at h
      cases h
      exact rewriteOp_fault ran
    | ok a e =>
      rw [ran] at h
      exact ih h

/-- Rounds end with a fault that has no place. -/
theorem rounds_fault {config : CompilerConfig} {left : Nat} {ops : List Op}
    (h : rounds config left ops c = .error (.fault f) d) :
    f.Unplaced ∨ f = Fault.passLimit config.maxPasses := by
  induction left generalizing c ops with
  | zero =>
    cases h
    exact .inr rfl
  | succ left ih =>
    obtain ⟨n, named⟩ : ∃ n, names ops c = .ok n c := ⟨_, rfl⟩
    simp only [rounds, Bind.bind, EStateM.bind, named] at h
    cases ran : rewrite config.foldConstants false [] (n.refresh [] ops).1 c with
    | error e e' =>
      rw [ran] at h
      obtain ⟨g, refused, rfl⟩ := rewrite_fault ran
      cases h
      exact .inl refused.unplaced
    | ok a e =>
      rw [ran] at h
      dsimp only [note, alter] at h
      split at h
      · exact ih h
      · cases h

theorem settle_fault {ops : List Op} (h : settle ops c = .error (.fault f) d) :
    f.Unplaced ∨ f = Fault.passLimit c.shared.config.compiler.maxPasses := by
  simp only [settle, Bind.bind, EStateM.bind, ask] at h
  cases skipped : addSkips [] ops with
  | error g =>
    rw [skipped] at h
    cases h
    exact .inl (addSkips_fault skipped)
  | ok us =>
    rw [skipped] at h
    exact rounds_fault h

/-- A text that does not compile has a fault with a place in it, or one without a place that stands in
the way of settling or placing its operations. -/
theorem source_fault {text : String} {base : Nat} (raw : c.Raw)
    (failed : Compile.source text base c = .error (.fault f) d) : Reported text f ∨ f.Unplaced ∨
      ∃ ops e e', rawOps text base c = .ok ops e ∧ (∀ op ∈ ops, op.Raw) ∧
        settle ops e = .error (.fault f) e' ∧ f = Fault.passLimit e.shared.config.compiler.maxPasses := by
  obtain ⟨goes, fails⟩ := reports_rawOps text base c raw
  rw [source_eq, unplaced_eq] at failed
  simp only [Bind.bind, EStateM.bind] at failed
  cases compiled : rawOps text base c with
  | error e e' =>
    rw [compiled] at failed
    cases failed
    exact .inl (fails _ _ compiled)
  | ok ops e =>
    rw [compiled] at failed
    dsimp only at failed
    cases settled : settle ops e with
    | error g e' =>
      rw [settled] at failed
      cases failed
      rcases settle_fault settled with unplaced | limit
      · exact .inr (.inl unplaced)
      · exact .inr (.inr ⟨ops, e, _, rfl, (goes ops e compiled).2, settled, limit⟩)
    | ok rest e' =>
      rw [settled] at failed
      simp only [place, Bind.bind, EStateM.bind, ask] at failed
      cases free : e'.shared.registry.checkLabels (namedLabels rest) with
      | error g =>
        rw [free] at failed
        cases failed
        refine .inr (.inl ?_)
        unfold Registry.checkLabels at free
        split at free
        · obtain rfl := Except.error.inj free
          exact ⟨rfl, fun same => by cases same⟩
        · cases free
      | ok =>
        rw [free] at failed
        cases failed

/-- Tokens stand where they say. A text that is read from whatever offset is its tokens in order, with
gaps between them that hold blanks and comments only, and the text of each token is found at its place.
So it is with all tokens of a source, however deep in braces they are, and a fault of the compiler that
has a place has that of a token of the source which it is about, or of a character that begins no token.
The registries of all engines know the built-in forms (`Reached.ready`). -/
theorem placed_faithfully (text : String) (base : Nat) (s : Shared) (standard : s.registry.Standard) :
    (∀ (part : String) (offset : Nat) (ts : List Token), Token.scan offset part.toList = .ok ts →
      Token.Spread offset part.toList ts ∧ (∀ t ∈ ts, t.Stands part offset) ∧
        ts.Pairwise fun t u => t.pos < u.pos ∧ t.stop ≤ u.pos) ∧
    (∀ t : Token, t.Of text → t.Stands text 0) ∧
    ∀ f d pos, Compile.source text base { shared := s } = .error (.fault f) d → f.pos = some pos →
      ∃ g, f = g.locate pos ∧ g.pos = none ∧ ((∃ t : Token, t.Of text ∧ t.Wrong g ∧ t.pos = pos) ∨
        ∃ c after, Token.Stray after c g ∧ (Token.ofChars [c] pos).Stands text 0) := by
  refine ⟨fun part offset ts read => ?_, fun t is => is.stands, fun f d pos failed placed => ?_⟩
  · have spread := Token.spread_of_scan read
    refine ⟨spread, fun t is => ?_, spread.ordered⟩
    have stands := spread.stands is
    rwa [String.ofList_toList] at stands
  · have raw : Compiler.Raw { shared := s } := ⟨standard, nofun⟩
    rcases source_fault raw failed with reported | unplaced | ⟨ops, e, e', -, -, -, rfl⟩
    · cases reported with
      | @token t g is wrong =>
        have none := wrong.unplaced.pos
        obtain rfl : t.pos = pos := by simpa [Fault.locate, none] using placed
        exact ⟨g, rfl, none, .inl ⟨t, is, wrong, rfl⟩⟩
      | @stray c here after g stray stands =>
        have none := (Stray.unplaced stray).pos
        obtain rfl : here = pos := by simpa [Fault.locate, none] using placed
        exact ⟨g, rfl, none, .inr ⟨c, after, stray, stands⟩⟩
    · rw [unplaced.pos] at placed
      cases placed
    · cases placed

/-- The fault that a compilation ends with. -/
def fault? (x : Compile α) (c : Compiler) : Option Fault :=
  match x c with
  | .error (.fault f) _ => some f
  | _ => none

theorem fault?_eq_some (h : x.fault? c = some f) : ∃ d, x c = .error (.fault f) d := by
  unfold fault? at h
  split at h <;> cases h
  rename_i d failed
  exact ⟨d, failed⟩

/-- A bracket that nothing opens, two braces deep and behind characters of more than one byte. -/
theorem placed_faithfully_nested :
    ∃ text d g, text = "/* ü */ \x7b \x7b 'é' ) \x7d \x7d" ∧
      Compile.source text 0 { shared := (Engine.new {} .silent {}).shared } =
        .error (.fault (g.locate 18)) d ∧
      (∀ ts, Token.scan 0 text.toList = .ok ts → ∀ t ∈ ts, t.Stands text 0) ∧
      ((∃ t : Token, t.Of text ∧ t.Wrong g ∧ t.pos = 18) ∨
        ∃ c after, Token.Stray after c g ∧ (Token.ofChars [c] 18).Stands text 0) := by
  have fails : (Compile.source "/* ü */ \x7b \x7b 'é' ) \x7d \x7d" 0).fault?
      { shared := (Engine.new {} .silent {}).shared } = some ((Fault.unmatched ")").locate 18) := by
    decide +kernel
  obtain ⟨d, failed⟩ := fault?_eq_some fails
  have standard : (Engine.new {} .silent {}).shared.registry.Standard :=
    (Reached.new {} .silent {} : Reached anyWatch _).ready.standard
  obtain ⟨tokens, -, faults⟩ := placed_faithfully "/* ü */ \x7b \x7b 'é' ) \x7d \x7d" 0 _ standard
  obtain ⟨g, same, -, at_⟩ := faults _ d 18 failed rfl
  rw [same] at failed
  exact ⟨_, d, g, rfl, failed, fun ts read => (tokens _ 0 ts read).2.1, at_⟩

end Compile

end Catena
