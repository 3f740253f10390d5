import SaltOperator.Salt.Requests
import SaltOperator.Cluster.Run

/-!
# The private key reaches only the Secret

The master returns the pair it generated as the return of a job, so that the private
key comes in a response body and passes through `wheel` and `GenAcceptKey` to
`writeBootstrapSecret`. Every log line, error and request on the way is a place
where it could come out again.

Two runs of `runPreseedKey` over HTTP are compared. Their scripts answer alike,
except that the responses to `get_jid` may differ in the private key inside the
return of the job (`SameButKey`). **The two runs then perform the same calls with the
same arguments and end in the same way; only the entry `minion.pem` of the Secret
they write differs** (`privateKey_only_in_secret`).
-/

namespace SaltOperator

/-! ## Values that differ in a string -/

/-- The values differ at most in non-empty strings, at members whose names match the
path. -/
def Json.DiffersAt : List (String → Bool) → Json → Json → Prop
  | [], j, j' => j = j' ∨ ∃ s s', j = .str s ∧ j' = .str s' ∧ s ≠ "" ∧ s' ≠ ""
  | sel :: path, j, j' => j = j' ∨ ∃ ms ms', j = .obj ms ∧ j' = .obj ms' ∧
      List.Forall₂ (fun m m' => m.1 = m'.1 ∧ (m.2 = m'.2 ∨ (sel m.1 = true ∧
        Json.DiffersAt path m.2 m'.2))) ms ms'

/-- Members that differ at most in their values, and there as `path` says if `sel` has
their name. -/
abbrev MembersDiffer (sel : String → Bool) (path : List (String → Bool)) :
    List (String × Json) → List (String × Json) → Prop :=
  List.Forall₂ fun m m' => m.1 = m'.1 ∧ (m.2 = m'.2 ∨ (sel m.1 = true ∧ m.2.DiffersAt path m'.2))

section differs

variable {rt : Runtime} {sel : String → Bool} {path : List (String → Bool)} {j j' : Json}
  {ms ms' : List (String × Json)} {vs vs' : List Json} {name : String}

theorem Json.differsAt_refl : ∀ (path : List (String → Bool)) (j : Json), j.DiffersAt path j
  | [], _ => .inl rfl
  | _ :: _, _ => .inl rfl

theorem membersDiffer_refl (ms : List (String × Json)) : MembersDiffer sel path ms ms := by
  induction ms with
  | nil => exact .nil
  | cons m ms ih => exact .cons ⟨rfl, .inl rfl⟩ ih

/-- The values are equal, or both objects. -/
theorem Json.DiffersAt.cases_obj (h : j.DiffersAt (sel :: path) j') :
    (j = j' ∧ ∀ ms, j ≠ .obj ms) ∨
      ∃ ms ms', j = .obj ms ∧ j' = .obj ms' ∧ MembersDiffer sel path ms ms' := by
  rcases h with rfl | ⟨ms, ms', rfl, rfl, hms⟩
  · cases j with
    | obj ms => exact .inr ⟨ms, ms, rfl, rfl, membersDiffer_refl ms⟩
    | _ => exact .inl ⟨rfl, nofun⟩
  · exact .inr ⟨ms, ms', rfl, rfl, hms⟩

theorem rel_refl {α : Type} : ∀ o : Option α, Option.Rel Eq o o
  | none => .none
  | some _ => .some rfl

theorem eq_of_rel {α : Type} {o o' : Option α} : Option.Rel Eq o o' → o = o'
  | .none => rfl
  | .some h => congrArg some h

theorem rel_bind {α β γ δ : Type} {R : α → β → Prop} {S : γ → δ → Prop} {o : Option α}
    {o' : Option β} {f : α → Option γ} {f' : β → Option δ} (h : Option.Rel R o o')
    (hf : ∀ a b, R a b → Option.Rel S (f a) (f' b)) : Option.Rel S (o >>= f) (o' >>= f') := by
  cases h with
  | none => exact .none
  | some hab => exact hf _ _ hab

/-- Folds over related lists stay related when each step does. -/
theorem rel_foldlM {α β : Type} {R : α → α → Prop} {S : β → β → Prop} {f : β → α → Option β}
    {vs vs' : List α} (hf : ∀ b b' v v', S b b' → R v v' → Option.Rel S (f b v) (f b' v'))
    (h : List.Forall₂ R vs vs') : ∀ b b', S b b' →
      Option.Rel S (vs.foldlM f b) (vs'.foldlM f b') := by
  induction h with
  | nil => exact fun b b' hb => .some hb
  | cons hv _ ih =>
    intro b b' hb
    rw [List.foldlM_cons, List.foldlM_cons]
    exact rel_bind (hf b b' _ _ hb hv) ih

theorem structValue_differs (h : j.DiffersAt (sel :: path) j') :
    Option.Rel (fun m m' => ∃ ms ms', m = .obj ms ∧ m' = .obj ms' ∧ MembersDiffer sel path ms ms')
      (structValue j) (structValue j') := by
  rcases h.cases_obj with ⟨rfl, hno⟩ | ⟨ms, ms', rfl, rfl, hms⟩
  · cases j with
    | obj ms => exact absurd rfl (hno ms)
    | null => exact .some ⟨[], [], rfl, rfl, .nil⟩
    | _ => exact .none
  · exact .some ⟨ms, ms', rfl, rfl, hms⟩

theorem structField_cons (m : String × Json) (ms : List (String × Json)) :
    structField rt name (.obj (m :: ms)) =
      if rt.equalFold m.1 name then m.2 :: structField rt name (.obj ms)
      else structField rt name (.obj ms) := by
  show ((m :: ms).filter fun m => rt.equalFold m.1 name).map Prod.snd = _
  rw [List.filter_cons]
  split <;> rfl

/-- The values of a struct field differ as its members do. -/
theorem structField_differs (h : MembersDiffer sel path ms ms') :
    List.Forall₂ (fun v v' => v.DiffersAt path v') (structField rt name (.obj ms))
      (structField rt name (.obj ms')) := by
  induction h with
  | nil => exact .nil
  | @cons m m' ms ms' hm _ ih =>
    rw [structField_cons, structField_cons, hm.1]
    split
    · refine .cons ?_ ih
      rcases hm.2 with heq | hd
      · exact heq ▸ Json.differsAt_refl path _
      · exact hd.2
    · exact ih

/-- A field that no differing member can be is the same. -/
theorem structField_eq (h : MembersDiffer sel path ms ms')
    (hsel : ∀ k, rt.equalFold k name = true → sel k = false) :
    structField rt name (.obj ms) = structField rt name (.obj ms') := by
  induction h with
  | nil => rfl
  | @cons m m' ms ms' hm _ ih =>
    rw [structField_cons, structField_cons, ← hm.1]
    split
    · rename_i hname
      have hval : m.2 = m'.2 := hm.2.resolve_right fun hd => by
        rw [hsel m.1 hname] at hd
        cases hd.1
      rw [ih, hval]
    · exact ih

theorem objectField_differs
    (h : List.Forall₂ (fun v v' => v.DiffersAt (sel :: path) v') vs vs') :
    Option.Rel (Option.Rel fun m m' => ∃ ms ms', m = .obj ms ∧ m' = .obj ms' ∧
      MembersDiffer sel path ms ms') (objectField vs) (objectField vs') := by
  refine rel_foldlM (fun m m' v v' hm hv => ?_) h none none .none
  rcases hv.cases_obj with ⟨rfl, hno⟩ | ⟨ns, ns', rfl, rfl, hns⟩
  · cases v with
    | obj ns => exact absurd rfl (hno ns)
    | null => exact .some .none
    | _ => exact .none
  · cases hm with
    | none => exact .some (.some ⟨ns, ns', rfl, rfl, hns⟩)
    | some hms =>
      obtain ⟨ms, ms', rfl, rfl, hms⟩ := hms
      exact .some (.some ⟨_, _, rfl, rfl, List.rel_append hms hns⟩)

theorem get?_differs {k : String} (h : MembersDiffer sel path ms ms') :
    Option.Rel (fun v v' => v.DiffersAt path v') ((Json.obj ms).get? k)
      ((Json.obj ms').get? k) := by
  have hlookup : ∀ {ms ms' : List (String × Json)}, MembersDiffer sel path ms ms' →
      Option.Rel (fun v v' => v.DiffersAt path v') (ms.lookup k) (ms'.lookup k) := by
    intro ms ms' h
    induction h with
    | nil => exact .none
    | @cons m m' ms ms' hm _ ih =>
      obtain ⟨a, v⟩ := m
      obtain ⟨a', v'⟩ := m'
      obtain ⟨rfl, hv⟩ := hm
      cases hk : k == a with
      | true =>
        simp only [List.lookup_cons, hk]
        refine .some ?_
        rcases hv with heq | hd
        · obtain rfl : v = v' := heq
          exact Json.differsAt_refl path v
        · exact hd.2
      | false =>
        simp only [List.lookup_cons, hk]
        exact ih
  exact hlookup (List.rel_reverse h)

theorem getLast?_differs {R : Json → Json → Prop} (h : List.Forall₂ R vs vs') :
    Option.Rel R vs.getLast? vs'.getLast? := by
  rw [← List.head?_reverse, ← List.head?_reverse]
  have hr := List.rel_reverse h
  generalize vs.reverse = l, vs'.reverse = l' at hr
  cases hr with
  | nil => exact .none
  | cons hv _ => exact .some hv

/-- A string field of values that differ in non-empty strings: empty in both or in
neither. -/
theorem stringField_differs (h : List.Forall₂ (fun v v' => v.DiffersAt [] v') vs vs') :
    Option.Rel (fun s s' => s = s' ∨ (s ≠ "" ∧ s' ≠ "")) (stringField vs) (stringField vs') := by
  refine rel_foldlM (fun s s' v v' hs hv => ?_) h "" "" (.inl rfl)
  rcases hv with rfl | ⟨t, t', rfl, rfl, ht, ht'⟩
  · cases v with
    | null => exact .some hs
    | str t => exact .some (.inl rfl)
    | _ => exact .none
  · exact .some (.inr ⟨ht, ht'⟩)

end differs

/-! ## Calls that look the same -/

/-- Where the private key is in the return of `key.gen_accept`. -/
def returnPath (rt : Runtime) : List (String → Bool) := [fun k => rt.equalFold k "priv"]

/-- Where it is in a master's result of that job. -/
def resultPath (rt : Runtime) : List (String → Bool) :=
  (fun k => rt.equalFold k "return") :: returnPath rt

/-- Where it is in the response to `get_jid`. -/
def keyPath (rt : Runtime) : List (String → Bool) :=
  (fun k => rt.equalFold k "ret") :: (fun _ => true) :: resultPath rt

/-- Errors of `encoding/json` do not quote strings: values that differ in strings give the
same one. -/
def Codec.Discreet (cd : Codec) : Prop :=
  ∀ path target (j j' : Json), j.DiffersAt path j' → cd.typeError target j = cd.typeError target j'

/-- Bodies that parse to values which differ in the private key, or fail to parse with one
error. -/
def BodyAlike (rt : Runtime) (cd : Codec) (body body' : List UInt8) : Prop :=
  match cd.parse body, cd.parse body' with
  | .ok j, .ok j' => j.DiffersAt (keyPath rt) j'
  | .error e, .error e' => e = e'
  | _, _ => False

/-- Responses with one status whose bodies, as far as `doPost` reads them, differ in the
private key. -/
def ResponseAlike (rt : Runtime) (cd : Codec) :
    Except String (Int × Except String (List UInt8)) →
    Except String (Int × Except String (List UInt8)) → Prop
  | .ok (status, .ok body), .ok (status', .ok body') => status = status' ∧
      BodyAlike rt cd (body.take (10 * 2 ^ 20)) (body'.take (10 * 2 ^ 20))
  | r, r' => r = r'

/-- Secrets that differ at most in their entry `minion.pem`. -/
structure Secret.Alike (s s' : Secret) : Prop where
  name : s.name = s'.name
  nspace : s.nspace = s'.nspace
  labels : s.labels = s'.labels
  ownerReferences : s.ownerReferences = s'.ownerReferences
  data : List.Forall₂ (fun e e' => e.1 = e'.1 ∧ (e.1 ≠ "minion.pem" → e.2 = e'.2)) s.data s'.data

/-- The call asks for the return of a job. -/
def WireOp.GetsJid (o : WireOp) : Prop := ∃ url headers jid, o = .post url headers (getJid jid)

/-- What an observer of everything but `minion.pem` takes for the same: equal calls, and
writes of Secrets that differ there. Answers are equal, but for those to `get_jid`. -/
inductive WireLooks (rt : Runtime) (cd : Codec) : Looks WireOp WireOp.Ans where
  | same (o : WireOp) : ¬ o.GetsJid → WireLooks rt cd o o Eq
  | job (url : String) (headers : List (String × String)) (jid : String) :
      WireLooks rt cd (.post url headers (getJid jid)) (.post url headers (getJid jid))
        (ResponseAlike rt cd)
  | create {s s' : Secret} : s.Alike s' →
      WireLooks rt cd (.controller (.createSecret s)) (.controller (.createSecret s'))
        fun (a a' : Except ApiErr Unit) => a = a'
  | update {s s' : Secret} : s.Alike s' →
      WireLooks rt cd (.controller (.updateSecret s)) (.controller (.updateSecret s'))
        fun (a a' : Except ApiErr Unit) => a = a'

/-- The same one level up, where `GenAcceptKey` is one call: pairs with one public
key. -/
inductive CallLooks : Looks Op Op.Ans where
  | same (o : Op) : (∀ conn minionID force, o ≠ .salt conn (.genAcceptKey minionID force)) →
      CallLooks o o Eq
  | generate (conn : Connection) (minionID : String) (force : Bool) :
      CallLooks (.salt conn (.genAcceptKey minionID force))
        (.salt conn (.genAcceptKey minionID force))
        (Prog.SameOutcome (Option.Rel fun (pair pair' : KeyPair) => pair.pub = pair'.pub))
  | create {s s' : Secret} : s.Alike s' → CallLooks (.createSecret s) (.createSecret s')
      fun (a a' : Except ApiErr Unit) => a = a'
  | update {s s' : Secret} : s.Alike s' → CallLooks (.updateSecret s) (.updateSecret s')
      fun (a a' : Except ApiErr Unit) => a = a'

/-! ## The client -/

section client

variable {rt : Runtime} {cd : Codec} {conn : Connection} {α : Type}

theorem not_getsJid_rpc {url resource method : String} {headers : List (String × String)}
    {kwarg : List (String × Json)} (h : method ≠ "get_jid") :
    ¬ (WireOp.post url headers (rpc resource method kwarg)).GetsJid := by
  rintro ⟨url', headers', jid, heq⟩
  have hbody := (WireOp.post.inj heq).2.2
  simp only [rpc, getJid, Json.obj.injEq, List.cons.injEq, Prod.mk.injEq, Json.str.injEq] at hbody
  exact h hbody.2.1.2

/-- A program that asks for no job is alike to itself. -/
theorem alike_of_performs {p : WireM α} (hp : p.Performs fun o => ¬ o.GetsJid) :
    Prog.Alike (WireLooks rt cd) Eq p p := Prog.alike_refl hp fun o => .same o

/-- The client's own calls and its logins ask for no job. -/
theorem usual_not_getsJid : Usual conn fun o => ¬ o.GetsJid where
  isLocal o ho := by
    rintro ⟨url, headers, jid, rfl⟩
    exact ho
  login headers := by
    rintro ⟨url', headers', jid, heq⟩
    have hbody := (WireOp.post.inj heq).2.2
    simp [credentials, rpc, getJid] at hbody

/-- Responses as `doPost` hands them on. -/
def WireResponse.Alike (rt : Runtime) (cd : Codec) (r r' : WireResponse) : Prop :=
  r.status = r'.status ∧ BodyAlike rt cd r.body r'.body

theorem doPost_alike {jid : String} : Prog.Alike (WireLooks rt cd) (WireResponse.Alike rt cd)
    (doPost cd conn (getJid jid)) (doPost cd conn (getJid jid)) := by
  refine .call (.same _ nofun) fun r r' hr => ?_
  subst hr
  refine (alike_of_performs orElse_usual).bind fun _ _ _ => ?_
  refine .call (.same _ nofun) fun xsrf xsrf' hx => .call (.same _ nofun) fun jwt jwt' hj => ?_
  subst hx hj
  refine .call (.same _ nofun) fun _ _ _ => .call (.job _ _ _) fun a a' ha => ?_
  rcases a with e | ⟨status, e | bytes⟩ <;> rcases a' with e' | ⟨status', e' | bytes'⟩ <;>
    first
      | exact .ret ha
      | (cases ha; exact .fail _)
      | cases ha

theorem rawPost_alike {jid : String} : Prog.Alike (WireLooks rt cd) (WireResponse.Alike rt cd)
    (rawPost cd conn (getJid jid)) (rawPost cd conn (getJid jid)) := by
  refine doPost_alike.bind fun r r' hr => ?_
  rw [hr.1]
  split
  · exact .ret hr
  · refine (alike_of_performs (login_usual usual_not_getsJid).attempt).bind fun _ _ heq => ?_
    subst heq
    exact (alike_of_performs orElse_usual).bind fun _ _ _ => doPost_alike

/-- Responses whose bodies differ in the private key decode alike. -/
theorem unmarshal_alike {β : Type} {target : String} {fit : Json → Option β} {U : β → β → Prop}
    (hcd : cd.Discreet) {body body' : List UInt8} (hb : BodyAlike rt cd body body')
    (hfit : ∀ j j', j.DiffersAt (keyPath rt) j' → Option.Rel U (fit j) (fit j')) (what : String) :
    Prog.Alike (WireLooks rt cd) U (orElse what (cd.unmarshal target fit body))
      (orElse what (cd.unmarshal target fit body')) := by
  unfold BodyAlike at hb
  unfold Codec.unmarshal
  cases hp : cd.parse body with
  | error e =>
    cases hp' : cd.parse body' with
    | error e' =>
      rw [hp, hp'] at hb
      obtain rfl : e = e' := hb
      exact .fail _
    | ok j' =>
      rw [hp, hp'] at hb
      exact hb.elim
  | ok j =>
    cases hp' : cd.parse body' with
    | error e' =>
      rw [hp, hp'] at hb
      exact hb.elim
    | ok j' =>
      rw [hp, hp'] at hb
      dsimp only
      have hj := hfit j j' hb
      rw [hcd _ target j j' hb]
      cases hf : fit j <;> cases hf' : fit j' <;> rw [hf, hf'] at hj <;> cases hj
      · exact .fail _
      · exact .ret ‹_›

/-! ### What is read of a response -/

/-- Objects whose members differ in the private key, at the end of `path`. -/
abbrev ObjectsDiffer (sel : String → Bool) (path : List (String → Bool)) (m m' : Json) : Prop :=
  ∃ ms ms', m = .obj ms ∧ m' = .obj ms' ∧ MembersDiffer sel path ms ms'

theorem jobFields_differs {j j' : Json} (h : j.DiffersAt (keyPath rt) j') :
    Option.Rel (fun f f' => Option.Rel (ObjectsDiffer (fun _ => true) (resultPath rt)) f.1 f'.1 ∧
      f.2 = f'.2) (jobFields rt j) (jobFields rt j') := by
  refine rel_bind (structValue_differs h) fun m m' hm => ?_
  obtain ⟨ms, ms', rfl, rfl, hms⟩ := hm
  have herror : structField rt "error" (.obj ms) = structField rt "error" (.obj ms') :=
    structField_eq hms fun k => Runtime.equalFold_ne (by decide)
  refine rel_bind (objectField_differs (structField_differs hms)) fun ret ret' hret => ?_
  rw [herror]
  exact rel_bind (rel_refl (objectField (structField rt "error" (.obj ms')))) fun e e' he =>
    .some ⟨hret, he⟩

theorem resultFields_differs {j j' : Json} (h : j.DiffersAt (resultPath rt) j') :
    Option.Rel (fun f f' => Option.Rel (fun v v' => v.DiffersAt (returnPath rt) v') f.1 f'.1 ∧
      f.2 = f'.2) (resultFields rt j) (resultFields rt j') := by
  refine rel_bind (structValue_differs h) fun m m' hm => ?_
  obtain ⟨ms, ms', rfl, rfl, hms⟩ := hm
  have hsuccess : structField rt "success" (.obj ms) = structField rt "success" (.obj ms') :=
    structField_eq hms fun k => Runtime.equalFold_ne (by decide)
  rw [hsuccess]
  exact rel_bind (rel_refl (boolField (structField rt "success" (.obj ms')))) fun b b' hb =>
    .some ⟨getLast?_differs (structField_differs hms), hb⟩

/-- Key pairs with one public key, and with a private key both or neither. -/
def PairAlike (pair pair' : KeyPair) : Prop :=
  pair.pub = pair'.pub ∧ (pair.priv = "" ↔ pair'.priv = "")

theorem keyPair_differs {ret ret' : Option Json}
    (h : Option.Rel (fun v v' => v.DiffersAt (returnPath rt) v') ret ret') :
    Option.Rel PairAlike (keyPair rt ret) (keyPair rt ret') := by
  refine rel_bind h fun j j' hj => rel_bind (structValue_differs hj) fun m m' hm => ?_
  obtain ⟨ms, ms', rfl, rfl, hms⟩ := hm
  have hpub : structField rt "pub" (.obj ms) = structField rt "pub" (.obj ms') :=
    structField_eq hms fun k => Runtime.equalFold_ne (by decide)
  rw [hpub]
  refine rel_bind (rel_refl (stringField (structField rt "pub" (.obj ms')))) fun pub pub' hp => ?_
  refine rel_bind (stringField_differs (structField_differs hms)) fun priv priv' hpriv => ?_
  refine .some ⟨hp, ?_⟩
  rcases hpriv with rfl | ⟨hne, hne'⟩
  · exact Iff.rfl
  · exact iff_of_false hne hne'

theorem masterKeys_differs {j j' : Json} (h : j.DiffersAt (returnPath rt) j') :
    masterKeys rt j = masterKeys rt j' := by
  refine eq_of_rel (rel_bind (structValue_differs h) fun m m' hm => ?_)
  obtain ⟨ms, ms', rfl, rfl, hms⟩ := hm
  have hlocal : structField rt "local" (.obj ms) = structField rt "local" (.obj ms') :=
    structField_eq hms fun k => Runtime.equalFold_ne (by decide)
  rw [hlocal]
  exact rel_refl _

/-! ### The methods -/

/-- The return of a job, absent or up to the private key. -/
abbrev ReturnAlike (rt : Runtime) : Option Json → Option Json → Prop :=
  Option.Rel fun v v' => v.DiffersAt (returnPath rt) v'

theorem pollOnce_alike (hcd : cd.Discreet) {fn jid : String} {r r' : WireResponse}
    (hr : r.Alike rt cd r') : Prog.Alike (WireLooks rt cd) (Option.Rel (ReturnAlike rt))
      (pollOnce cd rt conn fn jid r) (pollOnce cd rt conn fn jid r') := by
  unfold pollOnce WireResponse.isSuccess
  rw [hr.1]
  refine .ite (fun _ => .fail _) fun _ => ?_
  refine (unmarshal_alike hcd hr.2 (fun _ _ => jobFields_differs) _).bind ?_
  rintro ⟨ret, err⟩ ⟨ret', err'⟩ ⟨hret, herr⟩
  obtain rfl : err = err' := herr
  cases err with
  | some e => exact .fail _
  | none =>
    have hraw : Option.Rel (fun v v' => v.DiffersAt (resultPath rt) v')
        (ret.bind (·.get? conn.masterID)) (ret'.bind (·.get? conn.masterID)) := by
      refine rel_bind hret fun m m' hm => ?_
      obtain ⟨ms, ms', rfl, rfl, hms⟩ := hm
      exact get?_differs hms
    dsimp only
    generalize ret.bind (·.get? conn.masterID) = raw,
      ret'.bind (·.get? conn.masterID) = raw' at hraw
    cases hraw with
    | none => exact .ret .none
    | @some raw raw' hraw =>
      have hfields := resultFields_differs hraw
      have htext := hcd _ "struct { Return; Success }" _ _ hraw
      dsimp only
      generalize resultFields rt raw = f, resultFields rt raw' = f' at hfields
      cases hfields with
      | none =>
        rw [htext]
        exact .fail _
      | @some f f' hf =>
        obtain ⟨value, success⟩ := f
        obtain ⟨value', success'⟩ := f'
        obtain rfl : success = success' := hf.2
        exact .ite (fun _ => .fail _) fun _ => .ret (.some hf.1)

theorem pollWheel_alike (hcd : cd.Discreet) {fn jid : String} (polls : Nat) :
    Prog.Alike (WireLooks rt cd) (ReturnAlike rt) (pollWheel cd rt conn fn jid polls)
      (pollWheel cd rt conn fn jid polls) := by
  induction polls with
  | zero => exact .fail _
  | succ polls ih =>
    refine rawPost_alike.attempt.bind fun r r' hr => ?_
    have hread : ∀ what, Prog.Alike (WireLooks rt cd) (WireResponse.Alike rt cd) (orElse what r)
        (orElse what r') := by
      intro what
      cases hr with
      | ok hr => exact .ret hr
      | error e => exact .fail _
    refine (hread _).bind fun r r' hr => (pollOnce_alike hcd hr).bind fun v v' hv => ?_
    cases hv with
    | some hv => exact .ret hv
    | none =>
      refine .call (.same _ nofun) fun (a a' : Option String) ha => ?_
      subst ha
      cases a with
      | some e => exact .fail _
      | none => exact ih

theorem wheel_alike (hcd : cd.Discreet) {polls : Nat} {fn : String} {args : List Json}
    {kwarg : List (String × Json)} : Prog.Alike (WireLooks rt cd) (ReturnAlike rt)
      (wheel cd rt conn polls fn args kwarg) (wheel cd rt conn polls fn args kwarg) := by
  have hroute : (rawPost cd conn (wheelToRoute conn fn args kwarg)).Performs fun o => ¬ o.GetsJid :=
    rawPost_usual usual_not_getsJid fun headers => not_getsJid_rpc (by decide)
  refine (alike_of_performs hroute.attempt).bind fun r r' hr => ?_
  subst hr
  refine (alike_of_performs orElse_usual).bind fun r r' hr => ?_
  subst hr
  refine .ite (fun _ => .fail _) fun _ => ?_
  refine (alike_of_performs orElse_usual).bind fun f f' hf => ?_
  subst hf
  refine .ite (fun _ => .fail _) fun _ => ?_
  exact .call (.same _ nofun) fun _ _ _ => pollWheel_alike hcd polls

/-- **`GenAcceptKey`** returns pairs with one public key, and the same errors. -/
theorem genAcceptKey_alike (hcd : cd.Discreet) {polls : Nat} {minionID : String} {force : Bool} :
    Prog.Alike (WireLooks rt cd) (Option.Rel fun pair pair' => pair.pub = pair'.pub)
      (genAcceptKey cd rt conn polls minionID force)
      (genAcceptKey cd rt conn polls minionID force) := by
  refine (wheel_alike hcd).bind fun ret ret' hret => ?_
  have hpair := keyPair_differs hret
  generalize keyPair rt ret = pair, keyPair rt ret' = pair' at hpair
  cases hpair with
  | none => exact .fail _
  | @some pair pair' hp =>
    simp only [hp.1, hp.2]
    exact .ite (fun _ => .ret .none) fun _ => .ite (fun _ => .fail _) fun _ => .ret (.some hp.1)

theorem masterPublicKey_alike (hcd : cd.Discreet) {polls : Nat} :
    Prog.Alike (WireLooks rt cd) Eq (masterPublicKey cd rt conn polls)
      (masterPublicKey cd rt conn polls) := by
  refine .call (.same _ nofun) fun (cached cached' : String) hc => ?_
  subst hc
  refine Prog.Alike.ite (fun _ => .ret rfl) fun _ => (wheel_alike hcd).bind fun ret ret' hret => ?_
  cases hret with
  | none => exact .fail _
  | @some j j' hj =>
    unfold readMasterKey
    dsimp only
    rw [masterKeys_differs hj, hcd _ _ _ _ hj]
    split
    · exact .fail _
    · exact .ite (fun _ => .call (.same _ nofun) fun _ _ _ => .ret rfl) fun _ => .fail _
    · exact .fail _

/-- Calls of the controller that look the same are made over HTTP alike. -/
theorem overHttp_alike (hcd : cd.Discreet) (polls : Nat) {o o' : Op} {Q : o.Ans → o'.Ans → Prop}
    (h : CallLooks o o' Q) :
    Prog.Alike (WireLooks rt cd) Q (overHttp cd rt polls o) (overHttp cd rt polls o') := by
  have hself : ∀ o,
      Prog.Alike (WireLooks rt cd) Eq (Prog.perform (WireOp.controller o) : WireM o.Ans)
      (Prog.perform (WireOp.controller o)) := fun o =>
    .call (.same _ nofun) fun a a' ha => .ret ha
  cases h with
  | same o ho =>
    cases o with
    | salt conn call =>
      cases call with
      | keyStates minionID =>
        have hstates : (onWire cd rt polls (.salt conn (.keyStates minionID))).Performs
            fun o => ¬ o.GetsJid := by
          refine onWire_performs usual_not_getsJid ?_
          rintro body rfl headers
          exact not_getsJid_rpc (by decide)
        exact alike_of_performs hstates
      | genAcceptKey minionID force => exact absurd rfl (ho conn minionID force)
      | masterPublicKey => exact (masterPublicKey_alike hcd).attempt.mono fun a a' ha => ha.eq
      | _ => exact hself _
    | _ => exact hself _
  | generate conn minionID force => exact (genAcceptKey_alike hcd).attempt
  | create hs => exact .call (.create hs) fun a a' ha => .ret ha
  | update hs => exact .call (.update hs) fun a a' ha => .ret ha

end client

/-! ## The controller -/

section controller

variable {α : Type} {vm : VirtualMachine} {conn : Connection} {minionID : String}
  {requeueAfter : Duration}

/-- Calls that are no `GenAcceptKey`. -/
def Op.NoGeneration (o : Op) : Prop :=
  ∀ conn minionID force, o ≠ .salt conn (.genAcceptKey minionID force)

theorem alike_of_noGeneration {p : M α} (hp : p.Performs Op.NoGeneration) :
    Prog.Alike CallLooks Eq p p := Prog.alike_refl hp fun o => .same o

theorem minionIDOwner_noGeneration : (minionIDOwner vm minionID).Performs Op.NoGeneration := by
  refine ⟨nofun, fun r => ?_⟩
  cases r <;> exact trivial

theorem patchAnnotations_noGeneration {additions : List (String × String)} :
    (patchAnnotations vm additions).Performs Op.NoGeneration := by
  refine ⟨nofun, fun r => ?_⟩
  cases r <;> exact trivial

theorem ensureFinalizer_noGeneration {wrap : String → String} :
    (ensureFinalizer wrap vm).Performs Op.NoGeneration := by
  refine .ite (fun _ => trivial) fun _ => ⟨nofun, fun r => ?_⟩
  cases r <;> exact trivial

theorem warnForeignKey_noGeneration {states : List String} :
    (warnForeignKey vm minionID states).Performs Op.NoGeneration :=
  .ite (fun _ => ⟨nofun, fun _ => trivial⟩) fun _ => trivial

/-- The Secrets for pairs with one public key differ in `minion.pem` only. -/
theorem bootstrapSecret_alike {pair pair' : KeyPair} {masterPub : String}
    (h : pair.pub = pair'.pub) : (bootstrapSecret vm minionID pair masterPub).Alike
      (bootstrapSecret vm minionID pair' masterPub) := by
  refine ⟨rfl, rfl, rfl, rfl, ?_⟩
  refine .cons ⟨rfl, fun hne => absurd rfl hne⟩ (.cons ⟨rfl, fun _ => h⟩ ?_)
  exact .cons ⟨rfl, fun _ => rfl⟩ (.cons ⟨rfl, fun _ => rfl⟩ .nil)

theorem writeBootstrapSecret_alike {pair pair' : KeyPair} {masterPub : String}
    (h : pair.pub = pair'.pub) : Prog.Alike CallLooks Eq
      (writeBootstrapSecret vm minionID pair masterPub)
      (writeBootstrapSecret vm minionID pair' masterPub) := by
  have hsecret : (bootstrapSecret vm minionID pair masterPub).Alike
      (bootstrapSecret vm minionID pair' masterPub) := bootstrapSecret_alike h
  refine .call (.create hsecret) fun (a a' : Except ApiErr Unit) ha => ?_
  subst ha
  rcases a with (text | text | text) | _
  · exact .fail _
  · refine .call (.update hsecret) fun (a a' : Except ApiErr Unit) ha => ?_
    subst ha
    cases a
    · exact .fail _
    · exact .ret rfl
  · exact .fail _
  · exact .ret rfl

theorem deliverPreseedKey_alike {force : Bool} {pair pair' : KeyPair} (h : pair.pub = pair'.pub) :
    Prog.Alike CallLooks Eq (deliverPreseedKey vm conn minionID force pair requeueAfter)
      (deliverPreseedKey vm conn minionID force pair' requeueAfter) := by
  refine .call (.same _ nofun) fun (a a' : Except String String) ha => ?_
  subst ha
  cases a with
  | error e => exact .fail _
  | ok masterPub =>
    refine (writeBootstrapSecret_alike h).bind fun _ _ _ => ?_
    refine alike_of_noGeneration (ensureFinalizer_noGeneration.bind fun vm => ?_)
    refine patchAnnotations_noGeneration.bind fun vm => ?_
    exact ⟨nofun, fun _ => ⟨nofun, fun _ => trivial⟩⟩

theorem generatePreseedKey_alike : Prog.Alike CallLooks Eq
    (generatePreseedKey vm conn minionID requeueAfter)
    (generatePreseedKey vm conn minionID requeueAfter) := by
  refine .call (.same _ nofun) fun (a a' : Except String (List String)) ha => ?_
  subst ha
  cases a with
  | error e => exact .fail _
  | ok states =>
    refine (alike_of_noGeneration warnForeignKey_noGeneration).bind fun _ _ _ => ?_
    refine .call (.generate conn minionID _) fun a a' ha => ?_
    cases ha with
    | error e => exact .fail _
    | ok hpair =>
      cases hpair with
      | none => exact .fail _
      | some hpub => exact deliverPreseedKey_alike hpub

theorem runPreseedKey_alike : Prog.Alike CallLooks Eq (runPreseedKey vm conn requeueAfter)
    (runPreseedKey vm conn requeueAfter) := by
  refine (alike_of_noGeneration minionIDOwner_noGeneration).bind fun owner owner' ho => ?_
  subst ho
  cases owner with
  | none => exact generatePreseedKey_alike
  | some owner =>
    refine .ite (fun _ => alike_of_noGeneration ⟨nofun, fun _ => trivial⟩) fun _ => ?_
    refine alike_of_noGeneration (patchAnnotations_noGeneration.bind fun vm => ?_)
    exact ⟨nofun, fun _ => trivial⟩

end controller

/-! ## Two runs -/

/-- What happens on the `n`-th call. -/
abbrev WireScript := Nat → (o : WireOp) → o.Ans

/-- The scripts answer alike, except that the private key in a job's return may differ. The
answer to the write of a Secret does not depend on `minion.pem`. -/
structure SameButKey (rt : Runtime) (cd : Codec) (σ σ' : WireScript) : Prop where
  others : ∀ n o, ¬ o.GetsJid → σ n o = σ' n o
  jobs : ∀ n url headers jid, ResponseAlike rt cd (σ n (.post url headers (getJid jid)))
    (σ' n (.post url headers (getJid jid)))
  creates : ∀ n s s', Secret.Alike s s' →
    σ n (.controller (.createSecret s)) = σ' n (.controller (.createSecret s'))
  updates : ∀ n s s', Secret.Alike s s' →
    σ n (.controller (.updateSecret s)) = σ' n (.controller (.updateSecret s'))

/-- One call, or two writes of a Secret that differ in `minion.pem` only. -/
def WireOp.SameButPem (o o' : WireOp) : Prop :=
  o = o' ∨ ∃ s s' : Secret, s.Alike s' ∧
    ((o = .controller (.createSecret s) ∧ o' = .controller (.createSecret s')) ∨
      (o = .controller (.updateSecret s) ∧ o' = .controller (.updateSecret s')))

theorem WireLooks.sameButPem {rt : Runtime} {cd : Codec} {o o' : WireOp} {Q : o.Ans → o'.Ans → Prop}
    (h : WireLooks rt cd o o' Q) : o.SameButPem o' := by
  cases h with
  | same => exact .inl rfl
  | job => exact .inl rfl
  | create hs => exact .inr ⟨_, _, hs, .inl ⟨rfl, rfl⟩⟩
  | update hs => exact .inr ⟨_, _, hs, .inr ⟨rfl, rfl⟩⟩

theorem SameButKey.answers {rt : Runtime} {cd : Codec} {σ σ' : WireScript}
    (hσ : SameButKey rt cd σ σ')
    (n : Nat) (o o' : WireOp) (Q : o.Ans → o'.Ans → Prop) (h : WireLooks rt cd o o' Q) :
    Q (σ n o) (σ' n o') := by
  cases h with
  | same _ ho => exact hσ.others n o ho
  | job url headers jid => exact hσ.jobs n url headers jid
  | create hs => exact hσ.creates n _ _ hs
  | update hs => exact hσ.updates n _ _ hs

/-- `runPreseedKey` with its client over HTTP. -/
def preseedOverHttp (rt : Runtime) (cd : Codec) (polls : Nat) (vm : VirtualMachine)
    (conn : Connection) (requeueAfter : Duration) : WireM Result :=
  (runPreseedKey vm conn requeueAfter).interp (overHttp cd rt polls)

/-- **The private key reaches only the Secret.** Two runs whose scripts differ in it make the
same calls one by one (log lines, events, patches, requests), up to `minion.pem` in the
Secret they write, and return the same. -/
theorem privateKey_only_in_secret (rt : Runtime) (cd : Codec) (polls : Nat) (vm : VirtualMachine)
    (conn : Connection) (requeueAfter : Duration) (σ σ' : WireScript) (hcd : cd.Discreet)
    (hσ : SameButKey rt cd σ σ') (n : Nat) :
    List.Forall₂ WireOp.SameButPem
        ((preseedOverHttp rt cd polls vm conn requeueAfter).exec σ n).1
        ((preseedOverHttp rt cd polls vm conn requeueAfter).exec σ' n).1 ∧
      ((preseedOverHttp rt cd polls vm conn requeueAfter).exec σ n).2 =
        ((preseedOverHttp rt cd polls vm conn requeueAfter).exec σ' n).2 := by
  have halike : Prog.Alike (WireLooks rt cd) Eq (preseedOverHttp rt cd polls vm conn requeueAfter)
      (preseedOverHttp rt cd polls vm conn requeueAfter) :=
    runPreseedKey_alike.interp fun o o' Q h => overHttp_alike hcd polls h
  obtain ⟨hops, hres⟩ := halike.exec hσ.answers n
  exact ⟨hops.imp fun o o' ⟨Q, h⟩ => h.sameButPem, hres⟩

namespace Sample

/-- The return of both jobs, with this private key. -/
def jobReturn (priv : String) : Json :=
  .obj [("ret", .obj [("master", .obj [("success", .bool true), ("return", .obj
    [("pub", .str "PUBLIC KEY"), ("priv", .str priv),
     ("local", .obj [("master.pub", .str "PUBLIC KEY")])])])])]

/-- Bodies of one byte. -/
def codec : Codec where
  marshal _ := ""
  parse
    | [0] => .ok (.obj [("ret", .str "20260101")])
    | [1] => .ok (jobReturn "one")
    | [2] => .ok (jobReturn "two")
    | _ => .ok (.obj [])
  typeError _ _ := "cannot unmarshal"
  text _ := ""
  display _ := ""

def asksJob : Json → Bool
  | .obj [(a, .obj [(b, .str _)]), (c, .str method), (d, .str resource)] =>
    [a, b, c, method, d, resource] = ["kwarg", "jid", "method", "get_jid", "resource", "ret"]
  | _ => false

def startsJob : Json → Bool
  | .obj [_, (_, .str method), _] => method = "route_cmd"
  | _ => false

/-- Every call succeeds, and the return of a job is the body `[key]`. -/
def script (key : UInt8) : WireScript := fun _ o => match o with
  | .controller c => answer ∅ c
  | .debug _ _ => ()
  | .newRequest _ _ => .ok ()
  | .get _ _ => .ok 200
  | .post _ _ body =>
    .ok (200, .ok (if asksJob body then [key] else if startsJob body then [0] else []))
  | .cookie => ""
  | .jwt => ""
  | .setJwt _ => ()
  | .masterPub => ""
  | .setMasterPub _ => ()
  | .wait _ => none

/-- The VM is given a Secret with this private key. -/
def delivers (priv : String) (ops : List WireOp) : Bool :=
  ops.any fun o => match o with
    | .controller (.createSecret s) => s.data.lookup "minion.pem" = some priv
    | _ => false

theorem jobReturn_differs :
    (jobReturn "one").DiffersAt (keyPath runtime) (jobReturn "two") := by
  have hpriv : (Json.str "one").DiffersAt [] (.str "two") :=
    .inr ⟨_, _, rfl, rfl, by decide, by decide⟩
  refine .inr ⟨_, _, rfl, rfl, .cons ⟨rfl, .inr ⟨by decide, ?_⟩⟩ .nil⟩
  refine .inr ⟨_, _, rfl, rfl, .cons ⟨rfl, .inr ⟨rfl, ?_⟩⟩ .nil⟩
  refine .inr ⟨_, _, rfl, rfl, .cons ⟨rfl, .inl rfl⟩ (.cons ⟨rfl, .inr ⟨by decide, ?_⟩⟩ .nil)⟩
  refine .inr ⟨_, _, rfl, rfl, .cons ⟨rfl, .inl rfl⟩ (.cons ⟨rfl, .inr ⟨by decide, hpriv⟩⟩ ?_)⟩
  exact .cons ⟨rfl, .inl rfl⟩ .nil

theorem eq_getJid {body : Json} (h : asksJob body = true) : ∃ jid, body = getJid jid := by
  unfold asksJob at h
  split at h
  · next jid c method d resource =>
    have hnames := of_decide_eq_true h
    simp only [List.cons.injEq] at hnames
    obtain ⟨rfl, rfl, rfl, rfl, rfl, rfl, -⟩ := hnames
    exact ⟨_, rfl⟩
  · cases h

theorem script_sameButKey : SameButKey runtime codec (script 1) (script 2) := by
  refine ⟨fun n o ho => ?_, fun n url headers jid => ?_, fun n s s' _ => rfl, fun n s s' _ => rfl⟩
  · cases o with
    | controller c => rfl
    | post url headers body =>
      have hno : asksJob body = false := by
        rw [← Bool.not_eq_true]
        intro h
        obtain ⟨jid, rfl⟩ := eq_getJid h
        exact ho ⟨url, headers, jid, rfl⟩
      show (Except.ok (200, Except.ok (if asksJob body then [1] else _)) :
        Except String (Int × Except String (List UInt8))) =
          .ok (200, .ok (if asksJob body then [2] else _))
      rw [hno]
      rfl
    | _ => rfl
  · refine ⟨rfl, ?_⟩
    exact jobReturn_differs

end Sample

/-- Two runs that deliver different keys. -/
theorem privateKey_only_in_secret_delivered :
    let vm : VirtualMachine := { name := "web", nspace := "team", uid := "1" }
    let p := preseedOverHttp Sample.runtime Sample.codec 1 vm
      ⟨"url", "master", "u", "p", false, ""⟩ 0
    Sample.delivers "one" (p.exec (Sample.script 1) 0).1 = true ∧
    Sample.delivers "two" (p.exec (Sample.script 2) 0).1 = true ∧
    List.Forall₂ WireOp.SameButPem (p.exec (Sample.script 1) 0).1 (p.exec (Sample.script 2) 0).1 ∧
    (p.exec (Sample.script 1) 0).2 = (p.exec (Sample.script 2) 0).2 :=
  ⟨by decide, by decide, privateKey_only_in_secret _ _ _ _ _ _ _ _ (fun _ _ _ _ _ => rfl)
    Sample.script_sameButKey 0⟩

end SaltOperator
