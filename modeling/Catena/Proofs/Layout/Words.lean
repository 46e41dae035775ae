import Catena.Proofs.Layout.Compiled
import Catena.Proofs.Values

/-!
# What a source has to say

A block with a level of its own and a label that a program can name are compiled from a word of their
own. A unit has such an operation only if its source says the word, between braces or not
(`Reached.compiled_words`).
-/

namespace Catena

/-- The token is the word, or it stands for braces with a token between them that says the word. -/
inductive Token.Says (word : String) : Token → Prop
  | itself {t : Token} : t.text = word → Says word t
  | inside {t u : Token} {ts : List Token} : t.isBrace = true →
      Token.scan (t.pos + 1) t.inner = .ok ts → u ∈ ts → Says word u → Says word t

/-- A token of the source says the word. -/
def Says (text word : String) : Prop :=
  ∃ ts, Token.scan 0 text.toList = .ok ts ∧ ∃ t ∈ ts, t.Says word

/-- The tokens say no other words than these. -/
def Token.Within (known : String → Prop) (ts : List Token) : Prop :=
  ∀ t ∈ ts, ∀ w, t.Says w → known w

/-- A value that is not a label. -/
def Value.Tame (v : Value) : Prop :=
  ∀ l, v.payload ≠ .label l

/-- No source is compiled to an operation that pushes a label before names are looked up, nor to a
label without a name. -/
def Op.Tame : Op → Prop
  | .push v => v.Tame
  | .pushMany vs => ∀ v ∈ vs, v.Tame
  | .target l => l.anon = false → l.name ≠ ""
  | _ => True

/-- The operations so far need no other words than these. -/
structure Compiler.Within (known : String → Prop) (c : Compiler) : Prop where
  standard : c.shared.registry.Standard
  words : ∀ w ∈ words c.ops.toList, known w
  tame : ∀ op ∈ c.ops.toList, op.Tame

namespace Compile

variable {α β : Type} {known : String → Prop} {x : Compile α} {c d : Compiler} {P Q : α → Prop}

/-- The step adds only operations that need no other words, and what it answers is as said. -/
def Needs (known : String → Prop) (Q : α → Prop) (x : Compile α) : Prop :=
  ∀ c a d, c.Within known → x c = .ok a d → d.Within known ∧ Q a

theorem Needs.bind {R : β → Prop} {k : α → Compile β} (hx : Needs known P x)
    (hk : ∀ a, P a → Needs known R (k a)) : Needs known R (x >>= k) := by
  intro c b d within ok
  obtain ⟨a, e, first, second⟩ := bind_ok ok
  obtain ⟨within, holds⟩ := hx c a e within first
  exact hk a holds e b d within second

theorem Needs.mono (hx : Needs known P x) (weaker : ∀ a, P a → Q a) : Needs known Q x := by
  intro c a d within ok
  exact (hx c a d within ok).imp_right (weaker a)

/-- A step that adds no operations. -/
theorem Needs.silent (keeps : Keeps x) (same : ∀ c a d, x c = .ok a d → d.ops = c.ops ∧ Q a) :
    Needs known Q x := by
  intro c a d within ok
  obtain ⟨ops, holds⟩ := same c a d ok
  refine ⟨⟨(keeps.grown ok).standard within.standard, ?_, ?_⟩, holds⟩
  · rw [ops]
    exact within.words
  · rw [ops]
    exact within.tame

theorem Needs.pure {a : α} (h : Q a) : Needs known Q (Pure.pure a) :=
  .silent (.pure a) fun _ _ _ ok => by cases ok; exact ⟨rfl, h⟩

theorem Needs.fail (f : Fault) : Needs known Q (Compile.fail f : Compile α) :=
  .silent (.fail f) fun _ _ _ ok => by cases ok

theorem Needs.refuse {refused : Prop} [Decidable refused] {f : Fault} {k : Unit → Compile α}
    (hk : Needs known Q (k ())) : Needs known Q (if refused then Compile.fail f >>= k else k ()) := by
  split
  · exact (Needs.fail (Q := fun _ => True) f).bind fun _ _ => hk
  · exact hk

theorem Needs.ofExcept {e : Except Fault α} (h : ∀ a, e = .ok a → Q a) :
    Needs known Q (Compile.ofExcept e) := by
  cases e with
  | ok a => exact .pure (h a rfl)
  | error f => exact .fail f

theorem Needs.located (pos : Nat) (hx : Needs known Q x) : Needs known Q (Compile.located pos x) :=
  fun c a d within ok => hx c a d within (located_ok ok)

/-- What adds no operations answers something. -/
theorem Needs.quiet (keeps : Keeps x) (same : ∀ c a d, x c = .ok a d → d.ops = c.ops) :
    Needs known (fun _ => True) x :=
  .silent keeps fun c a d ok => ⟨same c a d ok, trivial⟩

theorem needs_freshId : Needs known (fun _ => True) freshId :=
  .quiet keeps_freshId fun _ _ _ ok => by cases ok; rfl

theorem needs_emit {op : Op} (h : ∀ w, op.word? = some w → known w) (tame : op.Tame) :
    Needs known (fun _ => True) (emit op) := by
  intro c _ d within ok
  obtain ⟨registry, added, -⟩ := emit_ok ok
  refine ⟨⟨registry ▸ within.standard, fun w member => ?_, fun o member => ?_⟩, trivial⟩
  · rw [added, words_append, List.mem_append] at member
    rcases member with before | new
    · exact within.words w before
    · refine h w ?_
      simpa [words] using new
  · rw [added, List.mem_append] at member
    rcases member with before | new
    · exact within.tame o before
    · exact List.mem_singleton.1 new ▸ tame

/-- An operation that needs no word. -/
theorem needs_emit_any {op : Op} (h : op.word? = none) (tame : op.Tame := by first | trivial | nofun) :
    Needs known (fun _ => True) (emit op) :=
  needs_emit (fun w needed => by rw [h] at needed; cases needed) tame

/-! ## Forms -/

theorem Within.tail {t : Token} {ts : List Token} (h : Token.Within known (t :: ts)) :
    Token.Within known ts :=
  fun u member => h u (List.mem_cons_of_mem _ member)

theorem Within.drop {ts : List Token} (h : Token.Within known ts) (n : Nat) :
    Token.Within known (ts.drop n) :=
  fun u member => h u (List.mem_of_mem_drop member)

theorem needs_expect (first : Token) (what : String) {ts : List Token}
    (h : Token.Within known ts) :
    Needs known (fun p => Token.Within known p.2) (expect first what ts) := by
  cases ts with
  | nil => exact .fail _
  | cons t ts => exact .pure (Within.tail h)

theorem needs_registry {make : Registry → Except Fault β × Registry}
    (h : ∀ r : Registry, r.Gains (make r).2) : Needs known (fun _ => True) (do
      let (b, registry) ← ask fun s => make s.registry
      alter fun s => { s with registry }
      Compile.ofExcept b) := by
  refine .quiet (keeps_registry h Keeps.ofExcept) fun c b d ok => ?_
  change Compile.ofExcept (make c.shared.registry).1
    { c with shared := { c.shared with registry := (make c.shared.registry).2 } } = .ok b d at ok
  rw [ofExcept_same ok]

theorem needs_typeAt (text : String) (pos : Nat) : Needs known (fun _ => True) (typeAt text pos) :=
  .located pos ((Needs.ofExcept fun _ _ => trivial).bind fun e _ =>
    needs_registry fun r => (e.resolve_adds r).gains)

variable {block : Block}

/-- The block adds only operations that need no other words, and leaves some of its tokens over. -/
def Block.Needs (known : String → Prop) (block : Block) : Prop :=
  ∀ closing ts, Token.Within known ts → Compile.Needs known (Token.Within known) (block closing ts)

variable (hb : Block.Needs known block) {ts : List Token} (within : Token.Within known ts)

include hb within

theorem needs_ownBlock (closing : String) {op : Op} (h : op.word? = none)
    (tame : op.Tame := by first | trivial | nofun) :
    Needs known (Token.Within known) (ownBlock block closing op ts) :=
  (needs_emit_any rfl).bind fun _ _ => (hb _ _ within).bind fun _ rest =>
    (needs_emit_any h tame).bind fun _ _ => .pure rest

theorem needs_lambda (name : Option String) (kind : LambdaKind) (closing : Option String) :
    Needs known (fun p => Token.Within known p.2) (lambda block name kind closing ts) :=
  needs_freshId.bind fun _ _ => (needs_emit_any rfl).bind fun _ _ => (hb _ _ within).bind
    fun _ rest => (needs_emit_any rfl).bind fun _ _ => .pure rest

/-- A lambda whose body becomes that of a function or a conversion. -/
theorem needs_define (name : Option String) (kind : LambdaKind) (closing : Option String)
    (define : LambdaDef → Compiler → Compiler) (ops : ∀ body c, (define body c).ops = c.ops)
    (shared : ∀ body c, (define body c).shared = c.shared) :
    Needs known (Token.Within known) (do
      let (body, ts) ← lambda block name kind closing ts
      fun c => .ok ts (define body c)) := by
  refine (needs_lambda hb within name kind closing).bind fun (body, rest) left => ?_
  intro c _ d within ok
  cases ok
  refine ⟨⟨?_, ?_, ?_⟩, left⟩
  · rw [shared]
    exact within.standard
  · rw [ops]
    exact within.words
  · rw [ops]
    exact within.tame

omit hb within

mutual

theorem needs_typeOps : (e : TypeExpr) → Needs known (fun _ => True) (typeOps e)
  | .named name => by rw [typeOps]; exact needs_emit_any rfl
  | .generic name args => by
    rw [typeOps]
    exact needs_freshId.bind fun _ _ => (needs_emit_any rfl).bind fun _ _ =>
      (needs_typeOpsEach args).bind fun _ _ => needs_emit_any rfl
  | .same n => Needs.fail _
  | .argOf n k => Needs.fail _

theorem needs_typeOpsEach : (es : List TypeExpr) → Needs known (fun _ => True) (typeOpsEach es)
  | [] => by rw [typeOpsEach]; exact .pure trivial
  | e :: es => by
    rw [typeOpsEach]
    exact (needs_typeOps e).bind fun _ _ => needs_typeOpsEach es

end

theorem needs_signature (first : Token) (h : Token.Within known ts) :
    Needs known (fun p => Token.Within known p.2) (signature first ts) := by
  induction ts with
  | nil => exact .fail _
  | cons t ts ih =>
    rw [signature]
    dsimp only
    split
    · exact .pure (Within.tail h)
    · exact (Needs.located _ (.ofExcept fun _ _ => trivial)).bind fun _ _ =>
        (ih (Within.tail h)).bind fun _ rest => .pure rest

theorem needs_argAt (arity : Nat) (e : TypeExpr) (pos : Nat) :
    Needs known (fun _ => True) (argAt arity e pos) := by
  have checked : Needs known (fun _ => True) (checkReference arity e) :=
    .quiet (keeps_checkReference arity e) fun c a d ok => by
      unfold checkReference at ok
      split at ok
      · split at ok <;> cases ok; rfl
      · split at ok <;> cases ok; rfl
      · cases ok; rfl
  exact .located pos (checked.bind fun _ _ => needs_registry fun r => (e.toArg_adds r).gains)

theorem Needs.mapM {γ : Type} {f : γ → Compile β} (h : ∀ a, Needs known (fun _ => True) (f a))
    (xs : List γ) : Needs known (fun _ => True) (xs.mapM f) := by
  induction xs with
  | nil => rw [List.mapM_nil]; exact .pure trivial
  | cons x xs ih =>
    rw [List.mapM_cons]
    exact (h x).bind fun _ _ => ih.bind fun _ _ => .pure trivial

theorem needs_fields (first : Token) (seen : List String) (h : Token.Within known ts) :
    Needs known (fun p => Token.Within known p.2) (fields first seen ts) := by
  induction ts generalizing seen with
  | nil => exact .fail _
  | cons t ts ih =>
    have typed (pos : Nat) (text? : Option String) :
        Needs known (fun _ => True) (fieldType pos text?) := by
      cases text? with
      | some text => exact needs_typeAt text pos
      | none => exact .pure trivial
    rw [fields]
    dsimp only
    split
    · exact .pure (Within.tail h)
    · exact (typed _ _).bind fun _ _ =>
        Needs.refuse ((ih _ (Within.tail h)).bind fun _ rest => .pure rest)

theorem needs_structForm (first : Token) (h : Token.Within known ts) :
    Needs known (Token.Within known) (structForm first ts) := by
  intro c rest d sound ok
  have grown := (keeps_structForm first ts).grown ok
  obtain ⟨⟨name, ts⟩, c₁, expected, ok⟩ := bind_ok ok
  obtain ⟨sound₁, left⟩ := needs_expect _ _ h _ _ _ sound expected
  obtain ⟨⟨fs, ts⟩, c₂, read, ok⟩ := bind_ok ok
  obtain ⟨sound₂, left⟩ := needs_fields _ _ left _ _ _ sound₁ read
  let make (s : Shared) := s.declareType name.text [.struct] (.record name.text (fs.map (·.1)))
  obtain ⟨⟨t, shared⟩, c₃, declared, ok⟩ := bind_ok ok
  have asked : (do ofExcept (← ask make)) c₂ = .ok (t, shared) c₃ := located_ok declared
  obtain ⟨_, c₄, altered, ok⟩ := bind_ok ok
  cases altered
  obtain ⟨_, c₅, added, ok⟩ := bind_ok ok
  cases ok
  have ops : d.ops = c₂.ops := by
    rcases ofExcept_ask make c₂ with ⟨e, failed⟩ | ⟨p, made, done⟩
    · rw [failed] at asked
      cases asked
    · rw [done] at asked
      cases asked
      exact (addStructFuncs_ok added).1
  refine ⟨⟨grown.standard sound.standard, ?_, ?_⟩, left⟩
  · rw [ops]
    exact sound₂.words
  · rw [ops]
    exact sound₂.tame

theorem needs_hostForm (first : Token) (take : Nat) (h : Token.Within known ts) :
    Needs known (Token.Within known) (hostForm first take ts) := by
  induction take generalizing ts with
  | zero => exact .pure h
  | succ take ih =>
    exact (needs_expect _ _ h).bind fun _ rest => (needs_emit_any rfl).bind fun _ _ => ih rest

include hb within

theorem needs_funcBody (first name : Token) :
    Needs known (Token.Within known) (funcBody block first name ts) := by
  refine (needs_signature _ within).bind fun (exprs, ts) left =>
    (Needs.mapM (fun (e, pos) => needs_argAt _ e pos) _).bind fun args _ => ?_
  have rest : Token.Within known
      (if (ts.head?.bind fun t => Safety.ofName? t.text).isSome then ts.drop 1 else ts) := by
    split
    · exact Within.drop left 1
    · exact left
  exact needs_define hb rest _ _ _ (fun body c =>
    { c with funcs := c.funcs ++ [⟨name.text, args, _, body⟩] }) (fun _ _ => rfl) (fun _ _ => rfl)

theorem needs_convForm (first : Token) : Needs known (Token.Within known) (convForm block first ts) := by
  refine (needs_expect _ _ within).bind fun (sourceName, ts) left => (needs_expect _ _ left).bind
    fun (targetName, ts) left => (needs_typeAt _ _).bind fun source _ => (needs_typeAt _ _).bind
      fun target _ => ?_
  exact needs_define hb left _ _ _ (fun body c =>
    { c with convs := c.convs ++ [⟨source, target, body⟩] }) (fun _ _ => rfl) (fun _ _ => rfl)

/-- The form that a word begins; that of `unsafe:` needs the word. -/
theorem needs_form (first : Token) {m : Macro}
    (builtin : ∀ op, m = .word op → op.word? = none ∧ op.Tame) (needed : m = .unrestricted → known "unsafe:") :
    Needs known (Token.Within known) (form block first ts m) := by
  cases m with
  | func =>
    exact (needs_expect _ _ within).bind fun _ left => (needs_expect _ _ left).bind fun _ left =>
      Needs.refuse (needs_funcBody hb left _ _)
  | binding =>
    exact (needs_expect _ _ within).bind fun _ left => Needs.refuse
      ((needs_ownBlock hb left _ rfl).bind fun _ rest => (needs_emit_any rfl).bind fun _ _ => .pure rest)
  | struct => exact needs_structForm first within
  | conv => exact needs_convForm hb within first
  | test =>
    exact (needs_expect _ _ within).bind fun _ left => Needs.refuse
      ((needs_ownBlock hb left _ rfl).bind fun _ rest => (needs_emit_any rfl).bind fun _ _ => .pure rest)
  | attempt =>
    exact needs_freshId.bind fun _ _ => (needs_emit_any rfl).bind fun _ _ => (hb _ _ within).bind
      fun _ rest => (needs_emit_any rfl).bind fun _ _ => (needs_emit_any rfl).bind fun _ _ => .pure rest
  | unrestricted =>
    refine (needs_emit (fun w same => ?_) ?_).bind fun _ _ => (hb _ _ within).bind fun _ rest =>
      (needs_emit_any rfl).bind fun _ _ => .pure rest
    · cases same
      exact needed rfl
    · trivial
  | defer =>
    exact (needs_lambda hb within _ _ _).bind fun _ rest => (needs_emit_any rfl).bind fun _ _ =>
      .pure rest
  | word op =>
    obtain ⟨bare, tame⟩ := builtin op rfl
    exact (needs_emit_any bare tame).bind fun _ _ => .pure within
  | exit kind =>
    exact (needs_freshId.bind fun _ _ => needs_emit_any rfl).bind fun _ _ => .pure within
  | host take => exact needs_hostForm first take within

/-! ## Tokens -/

omit hb within

theorem afterMark?_eq {mark : Char} {word name : String} (h : afterMark? mark word = some name) :
    word = String.ofList (mark :: name.toList) := by
  unfold afterMark? at h
  split at h
  · rename_i first second rest read
    split at h
    · rename_i same
      obtain rfl := Option.some.inj h
      rw [String.toList_ofList, ← same, ← read, String.ofList_toList]
    · cases h
  · cases h

theorem afterMark?_ne_empty {mark : Char} {word name : String} (h : afterMark? mark word = some name) :
    name ≠ "" := by
  unfold afterMark? at h
  split at h
  · split at h
    · obtain rfl := Option.some.inj h
      intro empty
      have chars := congrArg String.toList empty
      rw [String.toList_ofList] at chars
      cases chars
    · cases h
  · cases h

theorem wordOp_tame {t : Token} {op : Op} (h : wordOp t = some (.ok op)) : op.Tame :=
  wordOp_cases h (fun _ marked _ => afterMark?_ne_empty marked) (fun _ => trivial) (fun _ => trivial)
    (fun _ => trivial) (fun _ => trivial) fun v literal => by
      cases literal <;> nofun

theorem builtin_tame {word : String} {op : Op} (h : (word, Macro.word op) ∈ Macro.builtins) : op.Tame := by
  simp only [Macro.builtins, List.mem_cons, Prod.mk.injEq, Macro.word.injEq, List.not_mem_nil, or_false,
    reduceCtorEq, and_false, false_or] at h
  rcases h with ⟨-, rfl⟩ | ⟨-, rfl⟩ | ⟨-, rfl⟩ | ⟨-, rfl⟩ | ⟨-, rfl⟩ | ⟨-, rfl⟩ | ⟨-, rfl⟩ <;>
    first | trivial | exact fun _ same => by cases same

theorem wordOp_word {t : Token} {op : Op} (h : wordOp t = some (.ok op)) {w : String}
    (needed : op.word? = some w) : t.text = w := by
  rcases wordOp_shape h with plain | ⟨name, marked, rfl⟩
  · rw [Op.word?_plain plain] at needed
    cases needed
  · exact (afterMark?_eq marked).trans (Option.some.inj needed)

/-- A form that the registry knows. Only the word itself begins `unsafe:`. -/
theorem findForm_word {word : String} {m : Macro} (standard : c.shared.registry.Standard)
    (h : findForm word c = .ok (some m) d) :
    (∀ op, m = .word op → op.word? = none ∧ op.Tame) ∧ (m = .unrestricted → word = "unsafe:") := by
  refine ⟨?_, ?_⟩
  · rintro op rfl
    obtain ⟨name, builtin⟩ := findForm_op standard h
    exact ⟨Op.word?_plain (plain_of_builtin builtin), builtin_tame builtin⟩
  · rintro rfl
    rcases findForm_known standard h with ⟨name, builtin, rfl | takes⟩ | ⟨take, host⟩
    · simpa [Macro.builtins] using builtin
    · cases takes
    · cases host

include hb

theorem needs_braces {t : Token} (brace : t.isBrace = true) (h : Token.Within known [t]) :
    Needs known (fun _ => True) (braces block t) := by
  have read : Needs known (Token.Within known) (tokens (String.ofList t.inner) (t.pos + 1)) := by
    refine .silent (keeps_tokens _ _) fun c ts d ok => ?_
    obtain ⟨scanned, -, ops⟩ := tokens_ok ok
    rw [String.toList_ofList] at scanned
    exact ⟨ops, fun u member w said =>
      h t List.mem_cons_self w (.inside brace scanned member said)⟩
  exact read.bind fun _ inner => (needs_lambda hb inner _ _ _).bind fun _ _ => .pure trivial

theorem needs_token {t : Token} (within : Token.Within known (t :: ts)) :
    Needs known (Token.Within known) (token block t ts) := by
  have left := Within.tail within
  have itself : known t.text := within t List.mem_cons_self _ (.itself rfl)
  unfold token
  split
  · rename_i brace
    refine (needs_braces hb brace fun u member => ?_).bind fun _ _ => .pure left
    rw [List.mem_singleton.1 member]
    exact within t List.mem_cons_self
  split
  · exact needs_ownBlock hb left _ rfl
  split
  · exact needs_ownBlock hb left _ rfl
  split
  · exact .fail _
  split
  · exact .fail _
  split
  · rename_i op word
    cases op with
    | error f => exact fun _ _ _ _ ok => by cases ok
    | ok op =>
      refine (needs_emit (fun w needed => ?_) (wordOp_tame word)).bind fun _ _ => .pure left
      rw [← wordOp_word word needed]
      exact itself
  split
  · exact (Needs.ofExcept fun _ _ => trivial).bind fun e _ => (needs_typeOps e).bind fun _ _ =>
      .pure left
  · intro c rest d sound ok
    obtain ⟨m?, c₁, found, ok⟩ := bind_ok ok
    obtain rfl : c = c₁ := (EStateM.Result.ok.inj found).2
    cases m? with
    | some m =>
      obtain ⟨builtin, word⟩ := findForm_word sound.standard found
      exact needs_form hb left t builtin (fun same => word same ▸ itself) _ _ _ sound ok
    | none =>
      have plain : Needs known (Token.Within known) (do emit (.deref t.text); return ts) :=
        (needs_emit_any rfl).bind fun _ _ => .pure left
      exact plain _ _ _ sound ok

omit hb

/-- Compiling tokens adds operations that need no words but what the tokens say. -/
theorem needs_upTo (fuel : Nat) : Block.Needs known (upTo fuel) := by
  induction fuel with
  | zero => exact fun _ _ _ _ _ _ _ ok => by cases ok
  | succ fuel ih =>
    intro closing ts within
    cases ts with
    | nil =>
      cases closing with
      | none => exact .pure within
      | some closing => exact .fail _
    | cons t ts =>
      rw [upTo]
      split
      · exact .pure (Within.tail within)
      · exact (Needs.located _ (needs_token ih within)).bind fun _ left => ih _ _ left

end Compile

/-- A unit has an operation that needs a word only if its source says the word. -/
theorem Reached.compiled_words {kind : Watch → Prop} {m : Machine} (h : Reached kind m)
    {text : String} {base : Nat} {code : Code} {c : Compiler}
    (ok : Compile.source text base { shared := m.shared } = .ok code c) {w : String}
    (needed : w ∈ words code.ops) : Says text w := by
  obtain ⟨-, -, ts, d, rest, e, scanned, registry, empty, compiled, fewer⟩ :=
    Compile.source_ok h.ready.standard h.ready.labelled ok
  have begun : d.Within (Says text) := by
    constructor
    · exact registry ▸ h.ready.standard
    · rw [empty]
      nofun
    · rw [empty]
      nofun
  have read : Token.Within (Says text) ts := fun t member w said => ⟨ts, scanned, t, member, said⟩
  exact (Compile.needs_upTo _ _ _ read _ _ _ begun compiled).1.words w (fewer needed)

end Catena
