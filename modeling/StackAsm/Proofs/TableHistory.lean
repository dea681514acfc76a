import StackAsm.Proofs.Declarations
import StackAsm.Proofs.Layout

/-!
# StackAsm.Proofs.TableHistory

The symbol table over any sequence of declarations.

Requests to declare a name are made on an empty table one after another, and go on being made when
some are refused. `SymbolTable.after` is the table then, and `SymbolTable.granted` are the requests
that found an id. The table is always the one that the granted requests lead to, in the sense of
`SymbolTable.Holds`: one request keeps that (`Holds.request_granted`, `Holds.request_refused`), and
so does any number of them (`Holds.after`). From then on nothing is asked of the way in which the
table stores its labels.

A refusal depends on the number of requests alone, and not on their names. So the granted ones are
those that came first (`Holds.granted_eq_take`), and the index of a request is its id.
-/

namespace StackAsm

/-- The values that a declaration gives to a label. -/
structure Request where
  name : String
  address : Address
  loc : Location
deriving DecidableEq, Repr

namespace Request

/-- What the table knows of a label that was last declared by this request, with the given id. -/
def symbol (r : Request) (id : Nat) : Symbol := ⟨UInt16.ofNat id, r.address, r.loc⟩

/-- The request as a declaration. -/
def declaration (r : Request) : Declaration := ⟨r.name, r.loc, r.address.toNat⟩

@[simp] theorem name_declaration (r : Request) : r.declaration.name = r.name := rfl

@[simp] theorem symbol_declaration (r : Request) (id : Nat) :
    r.declaration.symbol id = r.symbol id := by
  simp [Declaration.symbol, declaration, symbol]

end Request

namespace SymbolTable

/-- The table after a request, and the answer to it. -/
def request (t : SymbolTable) (r : Request) : SymbolTable × Except DeclareError (Option Symbol) :=
  t.declare r.name r.address r.loc

/-- The table after requests, whatever the answers. -/
def after (t : SymbolTable) : List Request → SymbolTable
  | [] => t
  | r :: rest => (t.request r).1.after rest

/-- Those of the requests that are not refused. -/
def granted (t : SymbolTable) : List Request → List Request
  | [] => []
  | r :: rest =>
    match (t.request r).2 with
    | .ok _ => r :: (t.request r).1.granted rest
    | .error _ => (t.request r).1.granted rest

/-- The request with index `id` is the last one for its label. -/
structure IsLast (requests : List Request) (label : String) (id : Nat) (r : Request) : Prop where
  getElem? : requests[id]? = some r
  name : r.name = label
  latest : ∀ j r', id < j → requests[j]? = some r' → r'.name ≠ label

variable {t : SymbolTable} {ds : List Declaration}

/-! ### One request -/

/-- As long as there is an id left, a request takes it and tells what the name stood for. -/
theorem Holds.request_granted (h : t.Holds ds) (hroom : ds.length < capacity) (r : Request) :
    (t.request r).2 = .ok (t.get? r.name) ∧ (t.request r).1.Holds (ds ++ [r.declaration]) := by
  have hfree : ¬ t.isFull = true := by
    rw [h.isFull]
    omega
  rw [request, declare_eq, if_neg hfree]
  exact ⟨rfl, h.insert r.declaration r.address rfl⟩

/-- After that every request is refused, and changes nothing. -/
theorem Holds.request_refused (h : t.Holds ds) (hfull : capacity ≤ ds.length) (r : Request) :
    t.request r = (t, .error .idsExhausted) := by
  rw [request, declare_eq, if_pos (h.isFull.mpr hfull)]

/-- A request that is granted binds its name to the next id. -/
theorem Holds.get?_request (h : t.Holds ds) (hroom : ds.length < capacity) (r : Request) :
    (t.request r).1.get? r.name = some (r.symbol ds.length) := by
  rw [(h.request_granted hroom r).2.get?, Declaration.last?_append_singleton,
    if_pos r.name_declaration, Option.map_some, Request.symbol_declaration]

/-! ### Any number of requests -/

/-- The table is the one that the granted requests lead to. -/
theorem Holds.after (h : t.Holds ds) (requests : List Request) :
    (t.after requests).Holds (ds ++ (t.granted requests).map Request.declaration) := by
  induction requests generalizing t ds with
  | nil => simpa [SymbolTable.after, granted] using h
  | cons r rest ih =>
    unfold SymbolTable.after granted
    by_cases hroom : ds.length < capacity
    · obtain ⟨hanswer, hholds⟩ := h.request_granted hroom r
      rw [hanswer]
      simpa using ih hholds
    · rw [h.request_refused (by omega) r]
      exact ih h

/-- The granted requests are those for which there were ids left. -/
theorem Holds.granted_eq_take (h : t.Holds ds) (requests : List Request) :
    t.granted requests = requests.take (capacity - ds.length) := by
  induction requests generalizing t ds with
  | nil => simp [granted]
  | cons r rest ih =>
    unfold granted
    by_cases hroom : ds.length < capacity
    · obtain ⟨hanswer, hholds⟩ := h.request_granted hroom r
      have hleft : capacity - ds.length = (capacity - (ds.length + 1)) + 1 := by omega
      rw [hanswer, hleft, List.take_succ_cons]
      simpa using ih hholds
    · have hnone : capacity - ds.length = 0 := by omega
      rw [h.request_refused (by omega) r, hnone, List.take_zero]
      simpa [hnone] using ih h

/-! ### What the table tells -/

/-- What the answer is to the request with index `k`, made on the table `t`. -/
structure AnswersInTurn (t : SymbolTable) (k : Nat) (r : Request) : Prop where
  /-- It takes the id `k`, and the answer is what the name stood for. -/
  granted : k < 65536 →
    (t.request r).2 = .ok (t.get? r.name) ∧ (t.request r).1.get? r.name = some (r.symbol k)
  /-- There is no id left, and nothing changes. -/
  refused : 65536 ≤ k → t.request r = (t, .error .idsExhausted)

/-- What the table tells of its labels when `requests` were granted. -/
structure Reflects (t : SymbolTable) (requests : List Request) : Prop where
  /-- A label stands for what its last request said, and that request's index is its id. -/
  get? : ∀ name symbol, t.get? name = some symbol ↔
    ∃ id r, IsLast requests name id r ∧ symbol = r.symbol id
  /-- A reference to a label is filled in with that id, high byte first. -/
  resolve? : ∀ name raw, (Segment.label name).resolve? t = some raw ↔
    ∃ id r, IsLast requests name id r ∧ raw = [UInt8.ofNat (id / 256), UInt8.ofNat (id % 256)]
  /-- The labels are listed by first request. -/
  names : t.toList.map Prod.fst = (requests.map Request.name).eraseDups
  /-- None is listed twice. -/
  nodup_names : (t.toList.map Prod.fst).Nodup
  /-- They are listed with what they stand for. -/
  entries : ∀ entry ∈ t.toList, t.get? entry.1 = some entry.2
  /-- No two of them have the same id. -/
  nodup_ids : (t.toList.map fun entry => entry.2.id).Nodup

section Reflects

variable {requests : List Request}

theorem last?_map_declaration {label : String} {d : Declaration} {id : Nat} :
    Declaration.last? (requests.map Request.declaration) label = some (d, id) ↔
      ∃ r, IsLast requests label id r ∧ r.declaration = d := by
  constructor
  · intro h
    obtain ⟨hget, hname, hlatest⟩ := Declaration.last?_eq_some h
    obtain ⟨r, hr, rfl⟩ := Option.map_eq_some_iff.mp (List.getElem?_map ▸ hget)
    refine ⟨r, ⟨hr, hname, ?_⟩, rfl⟩
    intro j r' hj hr'
    exact hlatest j r'.declaration hj (by simp [hr'])
  · intro h
    obtain ⟨r, hlast, rfl⟩ := h
    refine Declaration.last?_eq_some_of_latest (by simp [hlast.getElem?]) hlast.name ?_
    intro j d' hj hd'
    obtain ⟨r', hr', rfl⟩ := Option.map_eq_some_iff.mp (List.getElem?_map ▸ hd')
    exact hlast.latest j r' hj hr'

/-- An id that was given out is not cut off in the table. -/
theorem IsLast.toNat_id {label : String} {id : Nat} {r : Request}
    (h : IsLast requests label id r) (hcount : requests.length ≤ capacity) :
    (r.symbol id).id.toNat = id :=
  Nat.mod_eq_of_lt (Nat.lt_of_lt_of_le (List.getElem?_eq_some_iff.mp h.getElem?).1 hcount)

theorem get?_of_mem_toList {entry : String × Symbol} (h : entry ∈ t.toList) :
    t.get? entry.1 = some entry.2 := by
  obtain ⟨name, -, hname⟩ := List.mem_filterMap.mp h
  obtain ⟨symbol, hsymbol, rfl⟩ := Option.map_eq_some_iff.mp hname
  exact hsymbol

variable (h : t.Holds (requests.map Request.declaration))

include h

theorem Holds.get?_eq_some_iff (name : String) (symbol : Symbol) :
    t.get? name = some symbol ↔ ∃ id r, IsLast requests name id r ∧ symbol = r.symbol id := by
  rw [h.get?]
  constructor
  · intro hget
    obtain ⟨⟨d, id⟩, hlast, rfl⟩ := Option.map_eq_some_iff.mp hget
    obtain ⟨r, hr, rfl⟩ := last?_map_declaration.mp hlast
    exact ⟨id, r, hr, r.symbol_declaration id⟩
  · intro hlast
    obtain ⟨id, r, hr, rfl⟩ := hlast
    rw [last?_map_declaration.mpr ⟨r, hr, rfl⟩, Option.map_some, Request.symbol_declaration]

theorem Holds.resolve?_eq_some_iff (hcount : requests.length ≤ capacity) (name : String)
    (raw : List UInt8) :
    (Segment.label name).resolve? t = some raw ↔ ∃ id r, IsLast requests name id r ∧
      raw = [UInt8.ofNat (id / 256), UInt8.ofNat (id % 256)] := by
  have hbytes : ∀ id r, IsLast requests name id r → BigEndian.bytes16 (r.symbol id).id =
      [UInt8.ofNat (id / 256), UInt8.ofNat (id % 256)] := by
    intro id r hlast
    rw [BigEndian.bytes16_eq, hlast.toNat_id hcount]
  rw [Segment.resolve?]
  constructor
  · intro hraw
    obtain ⟨symbol, hget, rfl⟩ := Option.map_eq_some_iff.mp hraw
    obtain ⟨id, r, hlast, rfl⟩ := (h.get?_eq_some_iff name symbol).mp hget
    exact ⟨id, r, hlast, hbytes id r hlast⟩
  · intro hlast
    obtain ⟨id, r, hlast, rfl⟩ := hlast
    rw [(h.get?_eq_some_iff name _).mpr ⟨id, r, hlast, rfl⟩, Option.map_some, hbytes id r hlast]

/-- An id stands for one request, so that it belongs to one label. -/
theorem Holds.nodup_ids (hcount : requests.length ≤ capacity) :
    (t.toList.map fun entry => entry.2.id).Nodup := by
  have hnames : (t.toList.map Prod.fst).Nodup := by
    rw [h.map_fst_toList]
    exact Declaration.nodup_names _
  refine List.Nodup.map_on ?_ (List.Nodup.of_map _ hnames)
  intro x hx y hy hid
  have hgetx := get?_of_mem_toList hx
  have hgety := get?_of_mem_toList hy
  obtain ⟨i, r, hlast, hsymbol⟩ := (h.get?_eq_some_iff _ _).mp hgetx
  obtain ⟨j, r', hlast', hsymbol'⟩ := (h.get?_eq_some_iff _ _).mp hgety
  obtain rfl : i = j := by
    rw [← hlast.toNat_id hcount, ← hlast'.toNat_id hcount, ← hsymbol, ← hsymbol', hid]
  obtain rfl : r = r' := Option.some.inj (hlast.getElem?.symm.trans hlast'.getElem?)
  refine Prod.ext (hlast.name.symm.trans hlast'.name) ?_
  rw [hsymbol, hsymbol']

theorem Holds.reflects (hcount : requests.length ≤ capacity) : t.Reflects requests where
  get? := h.get?_eq_some_iff
  resolve? := h.resolve?_eq_some_iff hcount
  names := by
    rw [h.map_fst_toList, Declaration.names, List.map_map]
    rfl
  nodup_names := by
    rw [h.map_fst_toList]
    exact Declaration.nodup_names _
  entries _ := get?_of_mem_toList
  nodup_ids := h.nodup_ids hcount

end Reflects

/-! ### On an empty table -/

theorem granted_empty (requests : List Request) :
    ({} : SymbolTable).granted requests = requests.take 65536 :=
  holds_empty.granted_eq_take requests

theorem holds_after_empty (requests : List Request) :
    (({} : SymbolTable).after requests).Holds ((requests.take 65536).map Request.declaration) := by
  rw [← granted_empty]
  exact holds_empty.after requests

/-- The index of a request decides on the answer. -/
theorem answersInTurn_after {requests : List Request} {k : Nat} {r : Request}
    (hr : requests[k]? = some r) :
    (({} : SymbolTable).after (requests.take k)).AnswersInTurn k r := by
  have hholds := holds_after_empty (requests.take k)
  have hk : k < requests.length := (List.getElem?_eq_some_iff.mp hr).1
  have hlength : (((requests.take k).take 65536).map Request.declaration).length = min 65536 k := by
    rw [List.length_map, List.length_take, List.length_take, Nat.min_eq_left (Nat.le_of_lt hk)]
  constructor
  · intro hroom
    rw [Nat.min_eq_right (Nat.le_of_lt hroom)] at hlength
    have hleft : (((requests.take k).take 65536).map Request.declaration).length < capacity := by
      rw [hlength]
      exact hroom
    refine ⟨(hholds.request_granted hleft r).1, ?_⟩
    rw [hholds.get?_request hleft r, hlength]
  · intro hfull
    rw [Nat.min_eq_left hfull] at hlength
    exact hholds.request_refused (Nat.le_of_eq hlength.symm) r

/-- **The table over any history.** Whatever declarations are asked for on an empty table, in
whatever order, and although some are refused: the first 65536 of them take the ids from zero on,
one after the other, and tell what their name stood for before; all others are refused and change
nothing, be their name known or not. The table then knows of each label what the last granted
declaration said, fills references in with its id, and lists each label once, by first declaration,
with ids that are all different. -/
theorem declare_history (requests : List Request) :
    (∀ k r, requests[k]? = some r →
      (({} : SymbolTable).after (requests.take k)).AnswersInTurn k r) ∧
    ({} : SymbolTable).granted requests = requests.take 65536 ∧
    (({} : SymbolTable).after requests).Reflects (({} : SymbolTable).granted requests) := by
  refine ⟨fun k r hr => answersInTurn_after hr, granted_empty requests, ?_⟩
  rw [granted_empty]
  exact (holds_after_empty requests).reflects (List.length_take_le _ _)

end SymbolTable

end StackAsm
