import DefiBackend.Categorization.ContractsService
import DefiBackend.Common.AbiDecoding
import DefiBackend.Common.Collections

/-! # Parsing of the pages of protocols

`protocols.service.ts`: the protocols with unprocessed links of a type are read a page at a time,
their links are scanned, and the links with these URLs are flagged as processed. What is skipped
grows by each page, while the protocols of the page are no longer selected.

* `pendingLinks_parseRound`: what a round leaves unprocessed.
* `visits_of_onePage`: what fits on the first page is scanned and processed.
* `not_visits_of_skipped`: the first protocol after the first page is never on a page.
* `parseProtocols_visits_iff`: so all is visited exactly when it fits on the first page. -/

namespace DefiBackend
namespace Categorization
open Theory

/-! ## Data -/

inductive LinkTypeEnum
  | GITHUB | APP | DOCS
  deriving DecidableEq

structure Link where
  url : String
  type : LinkTypeEnum
  processed : Bool
  protocol : Nat
  deriving DecidableEq

/-- The tables that are used; the protocols are in the order of their ids. -/
structure Database where
  protocols : List Protocol
  links : List Link
  contracts : Contracts

/-- What the keys of the tables ensure. -/
structure Database.WellFormed (db : Database) : Prop where
  sorted : db.protocols.Pairwise (·.id < ·.id)
  protocol : ∀ link ∈ db.links, ∃ protocol ∈ db.protocols, protocol.id = link.protocol

abbrev FilteredLinks := Groups LinkTypeEnum String

/-- What is read of the pages: the links of a page, the addresses of contracts on a page and the
pages it leads to, and which texts match the expression of `checkingGithubUrl`. -/
structure Pages where
  links : String → List String
  contracts : String → List Address
  checkingGithubUrl : String → Bool

/-! ## Tables -/

namespace Database
variable (db : Database)

/-- The links of a protocol that a query joins to it. -/
def joined (linkType : LinkTypeEnum) (processed : Bool) (protocol : Protocol) : List Link :=
  db.links.filter fun link =>
    link.protocol = protocol.id ∧ link.type = linkType ∧ link.processed = processed

def findWithLinksLimit (linkType : LinkTypeEnum) (processed : Bool) (skip take : Nat) :
    List (Protocol × List Link) :=
  (page skip take (db.protocols.filter (db.joined linkType processed · ≠ []))).map fun protocol =>
    (protocol, db.joined linkType processed protocol)

def setProcessedByUrls (urls : List String) : Database :=
  { db with links := db.links.map fun link =>
      if link.url ∈ urls then { link with processed := true } else link }

end Database

/-! ## Scans -/

def findSubText (string : String) (find : List String) : Bool := find.any (includes string)

section
variable (pages : Pages)

/-- The callback of `filterLinks`. -/
def filterLink (filtered : FilteredLinks) (url : String) : FilteredLinks :=
  if includes url "github" ∧ pages.checkingGithubUrl url then filtered.push .GITHUB url
  else if findSubText url ["gitbook", "docs"] then filtered.push .DOCS url
  else filtered

/-- `AppPageStrategy.filterLinks`. -/
def filterLinks (list : List String) : FilteredLinks :=
  list.foldl (filterLink pages) [(.GITHUB, []), (.DOCS, [])]

def linksFromParsedResult (linksMap : FilteredLinks) (type : LinkTypeEnum) (protocol : Protocol) :
    List Link :=
  (unique (linksMap.get type)).map fun url => ⟨url, type, false, protocol.id⟩

/-- With `AppPageStrategy`. -/
def scanWebsiteForLinks (website : Website) : List Link :=
  let linksMap := filterLinks pages (pages.links website.url)
  linksFromParsedResult linksMap .APP website.protocol ++
    linksFromParsedResult linksMap .GITHUB website.protocol ++
    linksFromParsedResult linksMap .DOCS website.protocol

def scanWebsitesForLinks (websites : List Website) : List Link :=
  websites.flatMap (scanWebsiteForLinks pages)

/-- With no links, `find` has no conditions. -/
def saveLinks (db : Database) (links : List Link) : Database :=
  let listFound := db.links.filter fun found => links = [] ∨
    ∃ l ∈ links, found.url = l.url ∧ found.type = l.type ∧ found.protocol = l.protocol
  let filteredLinks := links.filter fun l => l.url ∉ listFound.map (·.url)
  { db with links := db.links ++ filteredLinks }

end

/-! ## The loops -/

/-- The websites that were scanned, with the other variables of a loop. -/
structure Parsing where
  db : Database
  skip : Nat
  scanned : List Website

def websitesOf (protocols : List (Protocol × List Link)) : List Website :=
  protocols.flatMap fun protocol => protocol.2.map fun link => ⟨link.url, protocol.1⟩

/-- One round of a loop over the protocols with links of a type, of which some are scanned, and
whether there is another one. -/
def parseRound (linkType : LinkTypeEnum)
    (slice : List (Protocol × List Link) → List (Protocol × List Link))
    (scan : Database → List Website → Database) (request : CommandRequestDto) (s : Parsing) :
    Parsing × Bool :=
  let protocols :=
    s.db.findWithLinksLimit linkType (request.includeProcessed.getD false) s.skip 100
  let websites := websitesOf (slice protocols)
  let db := (scan s.db websites).setProcessedByUrls (websites.map (·.url))
  (⟨db, s.skip + protocols.length, s.scanned ++ websites⟩, ¬ protocols.isEmpty)

section
variable (pages : Pages)

def parseProtocolsAppPage (testRun : Bool) (request : CommandRequestDto) (fuel : Nat)
    (db : Database) : Option Parsing :=
  doWhilst (parseRound .APP (if testRun then List.take 10 else id)
    (fun db websites => saveLinks db (scanWebsitesForLinks pages websites)) request) fuel ⟨db, 0, []⟩

def parseProtocolsDocsPage (request : CommandRequestDto) (fuel : Nat) (db : Database) :
    Option Parsing :=
  doWhilst (parseRound .DOCS id
    (fun db websites =>
      { db with contracts := scanWebsitesForContracts pages.contracts db.contracts websites })
    request) fuel ⟨db, 0, []⟩

end

/-- The unprocessed links of a type. -/
def pendingLinks (linkType : LinkTypeEnum) (db : Database) : List Link :=
  db.links.filter fun link => link.type = linkType ∧ link.processed = false

/-- A protocol has unprocessed links of a type. -/
abbrev IsPending (linkType : LinkTypeEnum) (db : Database) (protocol : Protocol) : Prop :=
  ∃ link ∈ pendingLinks linkType db, link.protocol = protocol.id

def pendingProtocols (linkType : LinkTypeEnum) (db : Database) : List Protocol :=
  db.protocols.filter (IsPending linkType db ·)

/-- A link was scanned, for its protocol. -/
def Parsing.Scanned (s : Parsing) (link : Link) : Prop :=
  ∃ website ∈ s.scanned, website.url = link.url ∧ website.protocol.id = link.protocol

/-- A run ends, with every link of a type that was unprocessed scanned and no longer so. -/
def Visits (run : Nat → Database → Option Parsing) (linkType : LinkTypeEnum) (db : Database) : Prop :=
  ∃ fuel s, run fuel db = some s ∧ ∀ link ∈ pendingLinks linkType db,
    s.Scanned link ∧ link ∉ pendingLinks linkType s.db

/-! ## What scans leave alone -/

/-- A scan adds no unprocessed links of a type. -/
def Keeps (linkType : LinkTypeEnum) (scan : Database → List Website → Database) : Prop :=
  ∀ db websites, (scan db websites).protocols = db.protocols ∧
    pendingLinks linkType (scan db websites) = pendingLinks linkType db

section
variable {pages : Pages}

theorem get_filterLink {filtered : FilteredLinks} (h : filtered.get .APP = []) (url : String) :
    (filterLink pages filtered url).get .APP = [] := by
  rw [filterLink]
  split
  · rw [Groups.get_push, if_neg (by decide), h]
  · split
    · rw [Groups.get_push, if_neg (by decide), h]
    · exact h

/-- No link of an app page is sorted out as one of an app page. -/
theorem get_filterLinks (list : List String) : (filterLinks pages list).get .APP = [] := by
  have hfold : ∀ filtered : FilteredLinks, filtered.get .APP = [] →
      (list.foldl (filterLink pages) filtered).get .APP = [] := by
    induction list with
    | nil => exact fun _ h => h
    | cons url list ih => exact fun filtered h => ih _ (get_filterLink h url)
  exact hfold _ rfl

theorem type_of_mem_scanWebsitesForLinks {websites : List Website} {link : Link}
    (h : link ∈ scanWebsitesForLinks pages websites) : link.type ≠ .APP := by
  obtain ⟨website, -, h⟩ := List.mem_flatMap.mp h
  rw [scanWebsiteForLinks, linksFromParsedResult, get_filterLinks] at h
  rcases List.mem_append.mp h with h | h
  · rcases List.mem_append.mp h with h | h
    · cases h
    · obtain ⟨url, -, rfl⟩ := List.mem_map.mp h
      intro happ
      cases happ
  · obtain ⟨url, -, rfl⟩ := List.mem_map.mp h
    intro happ
    cases happ

theorem keeps_saveLinks : Keeps .APP fun db websites =>
    saveLinks db (scanWebsitesForLinks pages websites) := by
  intro db websites
  refine ⟨rfl, ?_⟩
  dsimp only
  rw [pendingLinks, saveLinks, List.filter_append, pendingLinks, List.append_right_eq_self,
    List.filter_eq_nil_iff]
  intro link hlink hpending
  exact type_of_mem_scanWebsitesForLinks (List.mem_of_mem_filter hlink)
    (of_decide_eq_true hpending).1

theorem keeps_scanWebsitesForContracts : Keeps .DOCS fun db websites =>
    { db with contracts := scanWebsitesForContracts pages.contracts db.contracts websites } :=
  fun _ _ => ⟨rfl, rfl⟩

end

/-! ## Rounds -/

section
variable {linkType : LinkTypeEnum} {db : Database}

theorem eq_of_id_eq {protocols : List Protocol} (h : protocols.Pairwise (·.id < ·.id))
    {protocol protocol' : Protocol} (hmem : protocol ∈ protocols) (hmem' : protocol' ∈ protocols)
    (hid : protocol.id = protocol'.id) : protocol = protocol' := by
  have hnodup : (protocols.map (·.id)).Nodup := (List.pairwise_map.mpr h).imp Nat.ne_of_lt
  exact List.inj_on_of_nodup_map hnodup hmem hmem' hid

theorem pendingLinks_setProcessedByUrls (urls : List String) :
    pendingLinks linkType (db.setProcessedByUrls urls) =
      (pendingLinks linkType db).filter (·.url ∉ urls) := by
  rw [pendingLinks, pendingLinks, Database.setProcessedByUrls, List.filter_map, List.filter_filter]
  have hfilter : ∀ link : Link,
      ((fun link : Link => decide (link.type = linkType ∧ link.processed = false)) ∘
        fun link : Link => if link.url ∈ urls then { link with processed := true } else link) link =
      (decide (link.url ∉ urls) && decide (link.type = linkType ∧ link.processed = false)) := by
    intro link
    by_cases h : link.url ∈ urls
    · simp [h]
    · simp [h]
  rw [List.filter_congr fun link _ => hfilter link]
  apply (List.map_congr_left _).trans (List.map_id _)
  intro link hlink
  obtain ⟨hurl, -⟩ := Bool.and_eq_true_iff.mp (List.mem_filter.mp hlink).2
  rw [if_neg (of_decide_eq_true hurl), id]

/-- The protocols that a round reads. -/
def visited (linkType : LinkTypeEnum) (s : Parsing) : List Protocol :=
  page s.skip 100 (pendingProtocols linkType s.db)

/-- The websites that a round scans. -/
def roundWebsites (linkType : LinkTypeEnum) (s : Parsing) : List Website :=
  (visited linkType s).flatMap fun protocol =>
    ((pendingLinks linkType s.db).filter (·.protocol = protocol.id)).map fun link =>
      ⟨link.url, protocol⟩

theorem joined_eq (protocol : Protocol) : db.joined linkType false protocol =
    (pendingLinks linkType db).filter (·.protocol = protocol.id) := by
  rw [Database.joined, pendingLinks, List.filter_filter]
  congr
  funext link
  rw [Bool.decide_and]

theorem findWithLinksLimit_eq (skip : Nat) : db.findWithLinksLimit linkType false skip 100 =
    (page skip 100 (pendingProtocols linkType db)).map fun protocol =>
      (protocol, (pendingLinks linkType db).filter (·.protocol = protocol.id)) := by
  have hpending : db.protocols.filter (db.joined linkType false · ≠ []) =
      pendingProtocols linkType db := by
    apply List.filter_congr
    intro protocol _
    rw [decide_eq_decide, joined_eq, ne_eq, List.filter_eq_nil_iff]
    simp
  rw [Database.findWithLinksLimit, hpending]
  apply List.map_congr_left
  intro protocol _
  rw [joined_eq]

section
variable {scan : Database → List Website → Database} {request : CommandRequestDto} {s : Parsing}

theorem parseRound_eq (h : request.includeProcessed = none) :
    parseRound linkType id scan request s =
      ({  db := (scan s.db (roundWebsites linkType s)).setProcessedByUrls
            ((roundWebsites linkType s).map (·.url))
          skip := s.skip + (visited linkType s).length
          scanned := s.scanned ++ roundWebsites linkType s },
        decide ¬ (visited linkType s).isEmpty) := by
  have hwebsites : websitesOf (id (s.db.findWithLinksLimit linkType false s.skip 100)) =
      roundWebsites linkType s := by
    rw [findWithLinksLimit_eq, websitesOf, id, List.flatMap_map, roundWebsites, visited]
  rw [parseRound, h, Option.getD_none]
  rw [hwebsites, findWithLinksLimit_eq, List.length_map, List.isEmpty_map, visited]

theorem parseRound_next (h : request.includeProcessed = none) :
    (parseRound linkType id scan request s).2 = true ↔ visited linkType s ≠ [] := by
  rw [parseRound_eq h]
  simp

theorem mem_roundWebsites {website : Website} : website ∈ roundWebsites linkType s ↔
    website.protocol ∈ visited linkType s ∧ ∃ link ∈ pendingLinks linkType s.db,
      link.protocol = website.protocol.id ∧ link.url = website.url := by
  rw [roundWebsites, List.mem_flatMap]
  constructor
  · rintro ⟨protocol, hprotocol, h⟩
    obtain ⟨link, hlink, rfl⟩ := List.mem_map.mp h
    obtain ⟨hpending, hlink⟩ := List.mem_filter.mp hlink
    exact ⟨hprotocol, link, hpending, of_decide_eq_true hlink, rfl⟩
  · rintro ⟨hprotocol, link, hpending, hlink, hurl⟩
    refine ⟨website.protocol, hprotocol, List.mem_map.mpr ⟨link, ?_, ?_⟩⟩
    · exact List.mem_filter.mpr ⟨hpending, decide_eq_true hlink⟩
    · rw [hurl]

/-- A round scans no protocol that it does not read. -/
theorem unscanned_parseRound (hrequest : request.includeProcessed = none) {protocol : Protocol}
    (hsorted : s.db.protocols.Pairwise (·.id < ·.id)) (hprotocol : protocol ∈ s.db.protocols)
    (hunscanned : ∀ website ∈ s.scanned, website.protocol.id ≠ protocol.id)
    (hvisited : protocol ∉ visited linkType s) :
    ∀ website ∈ (parseRound linkType id scan request s).1.scanned,
      website.protocol.id ≠ protocol.id := by
  intro website hwebsite hid
  rw [parseRound_eq hrequest] at hwebsite
  rcases List.mem_append.mp hwebsite with h | h
  · exact hunscanned website h hid
  · obtain ⟨hread, -⟩ := mem_roundWebsites.mp h
    have hmem : website.protocol ∈ s.db.protocols :=
      List.mem_of_mem_filter (mem_of_mem_page hread)
    rw [eq_of_id_eq hsorted hmem hprotocol hid] at hread
    exact hvisited hread

variable (hscan : Keeps linkType scan) (hrequest : request.includeProcessed = none)
include hscan hrequest

theorem protocols_parseRound :
    (parseRound linkType id scan request s).1.db.protocols = s.db.protocols := by
  rw [parseRound_eq hrequest]
  exact (hscan _ _).1

/-- A round leaves the links unprocessed of which it scans no link with the URL. -/
theorem pendingLinks_parseRound :
    pendingLinks linkType (parseRound linkType id scan request s).1.db =
      (pendingLinks linkType s.db).filter (·.url ∉ (roundWebsites linkType s).map (·.url)) := by
  rw [parseRound_eq hrequest, pendingLinks_setProcessedByUrls, (hscan _ _).2]

/-- What is skipped grows, up to the number of protocols. -/
theorem exists_endsIn_parseRound (s : Parsing) :
    ∃ t, EndsIn (parseRound linkType id scan request) s t := by
  apply exists_endsIn (fun t => s.db.protocols.length - t.skip)
    (I := fun t => t.db.protocols = s.db.protocols) rfl
  intro t ht hnext
  refine ⟨(protocols_parseRound hscan hrequest).trans ht, ?_⟩
  rw [parseRound_next hrequest] at hnext
  have hskip : t.skip < (pendingProtocols linkType t.db).length := by
    by_contra hnot
    exact hnext ((page_eq_nil (by decide)).mpr (Nat.not_lt.mp hnot))
  have hlength : (pendingProtocols linkType t.db).length ≤ s.db.protocols.length :=
    ht ▸ List.length_filter_le _ _
  have hpos := List.length_pos_iff.mpr hnext
  rw [parseRound_eq hrequest]
  dsimp only
  omega

/-! ## One page -/

/-- All links that were unprocessed are scanned, and none is left. -/
def AllDone (linkType : LinkTypeEnum) (db : Database) (s : Parsing) : Prop :=
  pendingLinks linkType s.db = [] ∧ ∀ link ∈ pendingLinks linkType db, s.Scanned link

theorem AllDone.parseRound (hs : AllDone linkType db s) :
    AllDone linkType db (parseRound linkType id scan request s).1 := by
  constructor
  · rw [pendingLinks_parseRound hscan hrequest, hs.1, List.filter_nil]
  · intro link hlink
    obtain ⟨website, hwebsite, h⟩ := hs.2 link hlink
    refine ⟨website, ?_, h⟩
    rw [parseRound_eq hrequest]
    exact List.mem_append_left _ hwebsite

theorem allDone_parseRound (h : db.WellFormed)
    (hfew : (pendingProtocols linkType db).length ≤ 100) :
    AllDone linkType db (parseRound linkType id scan request ⟨db, 0, []⟩).1 := by
  have hround : ∀ link ∈ pendingLinks linkType db, ∃ website ∈ roundWebsites linkType ⟨db, 0, []⟩,
      website.url = link.url ∧ website.protocol.id = link.protocol := by
    intro link hlink
    obtain ⟨protocol, hprotocol, hid⟩ := h.protocol link (List.mem_of_mem_filter hlink)
    refine ⟨⟨link.url, protocol⟩, mem_roundWebsites.mpr ⟨?_, link, hlink, hid.symm, rfl⟩, rfl, hid⟩
    rw [visited, page_eq_self hfew, pendingProtocols]
    exact List.mem_filter.mpr ⟨hprotocol, decide_eq_true ⟨link, hlink, hid.symm⟩⟩
  constructor
  · rw [pendingLinks_parseRound hscan hrequest, List.filter_eq_nil_iff]
    intro link hlink hleft
    obtain ⟨website, hwebsite, hurl, -⟩ := hround link hlink
    exact of_decide_eq_true hleft (hurl ▸ List.mem_map_of_mem hwebsite)
  · intro link hlink
    obtain ⟨website, hwebsite, h⟩ := hround link hlink
    refine ⟨website, ?_, h⟩
    rw [parseRound_eq hrequest]
    exact List.mem_append_right _ hwebsite

theorem visits_of_onePage (h : db.WellFormed)
    (hfew : (pendingProtocols linkType db).length ≤ 100) :
    Visits (fun fuel db => doWhilst (parseRound linkType id scan request) fuel
      ⟨db, 0, []⟩) linkType db := by
  obtain ⟨t, ht⟩ := exists_endsIn_parseRound hscan hrequest ⟨db, 0, []⟩
  have hround : ∀ s, s = ⟨db, 0, []⟩ ∨ AllDone linkType db s →
      AllDone linkType db (parseRound linkType id scan request s).1 := by
    intro s hs
    rcases hs with rfl | hs
    · exact allDone_parseRound hscan hrequest h hfew
    · exact hs.parseRound hscan hrequest
  have hdone : AllDone linkType db t :=
    ht.induction (.inl rfl) (fun s hs _ => .inr (hround s hs)) fun s hs _ => hround s hs
  obtain ⟨fuel, hfuel⟩ := ht
  refine ⟨fuel, t, hfuel, ?_⟩
  intro link hlink
  refine ⟨hdone.2 link hlink, ?_⟩
  rw [hdone.1]
  exact List.not_mem_nil

/-! ## More than one page -/

/-- A protocol was not scanned, and it will not be: more protocols are skipped than selected before
it. -/
structure Missed (linkType : LinkTypeEnum) (before : List Protocol) (protocol : Protocol)
    (after : List Protocol) (s : Parsing) : Prop where
  protocols : s.db.protocols = before ++ protocol :: after
  unscanned : ∀ website ∈ s.scanned, website.protocol.id ≠ protocol.id
  skipped : (before.filter (IsPending linkType s.db ·)).length < s.skip

section
variable {before after : List Protocol} {protocol : Protocol}

theorem isPending_of_parseRound
    (h : IsPending linkType (parseRound linkType id scan request s).1.db protocol) :
    IsPending linkType s.db protocol ∧ protocol ∉ visited linkType s := by
  obtain ⟨link, hlink, hid⟩ := h
  rw [pendingLinks_parseRound hscan hrequest] at hlink
  obtain ⟨hpending, hurl⟩ := List.mem_filter.mp hlink
  refine ⟨⟨link, hpending, hid⟩, ?_⟩
  intro hvisited
  have hwebsite : ⟨link.url, protocol⟩ ∈ roundWebsites linkType s :=
    mem_roundWebsites.mpr ⟨hvisited, link, hpending, hid, rfl⟩
  exact of_decide_eq_true hurl (List.mem_map_of_mem hwebsite)

theorem Missed.parseRound (hsorted : (before ++ protocol :: after).Pairwise (·.id < ·.id))
    (hs : Missed linkType before protocol after s) :
    Missed linkType before protocol after (parseRound linkType id scan request s).1 := by
  have hvisited : protocol ∉ visited linkType s := by
    rw [visited, pendingProtocols, hs.protocols]
    apply not_mem_page _ hs.skipped
    exact hsorted.imp fun h heq => Nat.ne_of_lt h (congrArg _ heq)
  constructor
  case protocols => exact (protocols_parseRound hscan hrequest).trans hs.protocols
  case unscanned =>
    apply unscanned_parseRound hrequest _ _ hs.unscanned hvisited
    · rw [hs.protocols]
      exact hsorted
    · rw [hs.protocols]
      exact List.mem_append_right _ List.mem_cons_self
  case skipped =>
    have hless : (before.filter (IsPending linkType
        (Categorization.parseRound linkType id scan request s).1.db ·)).length ≤
          (before.filter (IsPending linkType s.db ·)).length := by
      apply (List.monotone_filter_right before _).length_le
      intro b hb
      exact decide_eq_true (isPending_of_parseRound hscan hrequest (of_decide_eq_true hb)).1
    rw [parseRound_eq hrequest] at hless ⊢
    exact Nat.lt_of_le_of_lt hless (Nat.lt_add_right _ hs.skipped)

/-- The first protocol after the first page is missed with the first round. -/
theorem missed_parseRound (hsorted : db.protocols.Pairwise (·.id < ·.id))
    (hprotocols : db.protocols = before ++ protocol :: after)
    (hpage : page 0 100 (pendingProtocols linkType db) =
      before.filter (IsPending linkType db ·))
    (hmore : 100 < (pendingProtocols linkType db).length) :
    Missed linkType before protocol after
      (parseRound linkType id scan request ⟨db, 0, []⟩).1 := by
  have hvisited : visited linkType ⟨db, 0, []⟩ = before.filter (IsPending linkType db ·) := hpage
  constructor
  case protocols => exact (protocols_parseRound hscan hrequest).trans hprotocols
  case unscanned =>
    apply unscanned_parseRound hrequest hsorted
    · rw [hprotocols]
      exact List.mem_append_right _ List.mem_cons_self
    · intro website hwebsite
      cases hwebsite
    · intro hmem
      rw [hvisited] at hmem
      rw [hprotocols] at hsorted
      have hless := (List.pairwise_append.mp hsorted).2.2 protocol (List.mem_of_mem_filter hmem)
        protocol List.mem_cons_self
      exact Nat.lt_irrefl _ hless
  case skipped =>
    have hnone : before.filter (IsPending linkType
        (parseRound linkType id scan request ⟨db, 0, []⟩).1.db ·) = [] := by
      rw [List.filter_eq_nil_iff]
      intro b hb hpending
      obtain ⟨hbefore, hnot⟩ := isPending_of_parseRound hscan hrequest (of_decide_eq_true hpending)
      rw [hvisited] at hnot
      exact hnot (List.mem_filter.mpr ⟨hb, decide_eq_true hbefore⟩)
    have hlength : (visited linkType ⟨db, 0, []⟩).length = 100 := by
      rw [visited, page, List.drop_zero, List.length_take, Nat.min_eq_left (Nat.le_of_lt hmore)]
    rw [hnone, parseRound_eq hrequest]
    dsimp only
    rw [hlength]
    decide

/-- What does not fit on one page is not visited. -/
theorem not_visits_of_skipped (h : db.WellFormed)
    (hmore : 100 < (pendingProtocols linkType db).length) :
    ¬ Visits (fun fuel db => doWhilst (parseRound linkType id scan request) fuel
      ⟨db, 0, []⟩) linkType db := by
  rintro ⟨fuel, t, ht, hall⟩
  obtain ⟨before, protocol, after, hprotocols, hpending, hpage⟩ := exists_after_page hmore
  obtain ⟨link, hlink, hid⟩ := of_decide_eq_true hpending
  have hround : ∀ s, s = ⟨db, 0, []⟩ ∨ Missed linkType before protocol after s →
      Missed linkType before protocol after (parseRound linkType id scan request s).1 := by
    intro s hs
    rcases hs with rfl | hs
    · exact missed_parseRound hscan hrequest h.sorted hprotocols hpage hmore
    · exact hs.parseRound hscan hrequest (hprotocols ▸ h.sorted)
  have hmissed : Missed linkType before protocol after t :=
    EndsIn.induction ⟨fuel, ht⟩ (.inl rfl) (fun s hs _ => .inr (hround s hs))
      fun s hs _ => hround s hs
  obtain ⟨website, hwebsite, -, hprotocol⟩ := (hall link hlink).1
  exact hmissed.unscanned website hwebsite (hprotocol.trans hid)

end

end

end

section
variable {pages : Pages} {request : CommandRequestDto} {db : Database}

/-- A run visits all unprocessed links exactly when their protocols fit on one page. -/
theorem parseProtocols_visits_iff (hrequest : request.includeProcessed = none) (h : db.WellFormed) :
    (Visits (parseProtocolsAppPage pages false request) .APP db ↔
        (pendingProtocols .APP db).length ≤ 100) ∧
      (Visits (parseProtocolsDocsPage pages request) .DOCS db ↔
        (pendingProtocols .DOCS db).length ≤ 100) := by
  constructor
  · refine ⟨fun hvisits => ?_, visits_of_onePage keeps_saveLinks hrequest h⟩
    by_contra hmore
    exact not_visits_of_skipped keeps_saveLinks hrequest h (Nat.not_le.mp hmore) hvisits
  · refine ⟨fun hvisits => ?_, visits_of_onePage keeps_scanWebsitesForContracts hrequest h⟩
    by_contra hmore
    exact not_visits_of_skipped keeps_scanWebsitesForContracts hrequest h (Nat.not_le.mp hmore)
      hvisits

end

/-- Pages with nothing on them. -/
def emptyPages : Pages where
  links _ := []
  contracts _ := []
  checkingGithubUrl _ := false

/-- Protocols with one unprocessed link of each type. -/
def someProtocols (n : Nat) : Database where
  protocols := (List.range n).map fun i => ⟨i, "p", "https://p"⟩
  links := (List.range n).flatMap fun i =>
    [⟨"https://p/" ++ toString i, .APP, false, i⟩, ⟨"https://docs.p/" ++ toString i, .DOCS, false, i⟩]
  contracts := ⟨[], 1, .nil, by decide⟩

theorem wellFormed_someProtocols (n : Nat) : (someProtocols n).WellFormed := by
  constructor
  case sorted => exact List.pairwise_map.mpr List.pairwise_lt_range
  case protocol =>
    intro link hlink
    obtain ⟨i, hi, hlink⟩ := List.mem_flatMap.mp hlink
    refine ⟨⟨i, "p", "https://p"⟩, List.mem_map_of_mem hi, ?_⟩
    rcases List.mem_pair.mp hlink with rfl | rfl <;> rfl

theorem someProtocols_visits : (Visits (parseProtocolsAppPage emptyPages false ⟨none⟩) .APP
        (someProtocols 3) ↔ (pendingProtocols .APP (someProtocols 3)).length ≤ 100) ∧
      (Visits (parseProtocolsDocsPage emptyPages ⟨none⟩) .DOCS (someProtocols 3) ↔
        (pendingProtocols .DOCS (someProtocols 3)).length ≤ 100) :=
  parseProtocols_visits_iff rfl (wellFormed_someProtocols 3)

theorem pendingProtocols_someProtocols (n : Nat) :
    pendingProtocols .APP (someProtocols n) = (someProtocols n).protocols := by
  apply List.filter_eq_self.mpr
  intro protocol hprotocol
  obtain ⟨i, hi, rfl⟩ := List.mem_map.mp hprotocol
  apply decide_eq_true
  refine ⟨⟨"https://p/" ++ toString i, .APP, false, i⟩, List.mem_filter.mpr ⟨?_, rfl⟩, rfl⟩
  exact List.mem_flatMap.mpr ⟨i, hi, List.mem_cons_self⟩

/-- Of 101 protocols the last one is not visited. -/
theorem someProtocols_not_visits :
    ¬ Visits (parseProtocolsAppPage emptyPages false ⟨none⟩) .APP (someProtocols 101) := by
  apply not_visits_of_skipped keeps_saveLinks rfl (wellFormed_someProtocols 101)
  rw [pendingProtocols_someProtocols, someProtocols, List.length_map, List.length_range]
  decide

end Categorization
end DefiBackend
