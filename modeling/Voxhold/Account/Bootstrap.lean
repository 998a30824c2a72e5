/-
# Voxhold.Account.Bootstrap — a bootstrapped instance and its runs

`instancebootstrap.Ensure` creates the one server of an instance and its owner, or checks that they
are there. From then on a run is a sequence of requests, each one write transaction, from any
account.
-/

import Voxhold.Account.Transactions

namespace Voxhold.Account

open Voxhold.Lib

inductive BootstrapError where
  | servers (found : ℕ)
  | owners (found : ℕ)
  | users (found : ℕ)
  | username
  | instanceName
  | password
  | database
deriving DecidableEq, Repr

/-- The configuration, with its surrounding spaces removed. -/
structure Config where
  username : String
  password : String
  instanceName : String

/-- What the bootstrap calls: `account.NormalizeUsername`, which may refuse, `bcrypt`, and
`generatePassword`. -/
structure Crypto where
  normalizeUsername : String → Option (String × String)
  hash : String → String
  generatedPassword : String

namespace Database

variable (db : Database)

/-- The rows `validateOwner` counts. -/
def activeOwners : List Member :=
  db.members.rows.filter fun m => m.role = .owner ∧ db.servers.Has m.serverID ∧ db.active m.userID

def validateOwner : Except BootstrapError Unit :=
  require (db.activeOwners.length = 1) (.owners db.activeOwners.length)

def orDefault (s default : String) : String :=
  if s = "" then default else s

/-- The first start: the owner, the server and the owner's membership. -/
def createInstance (crypto : Crypto) (config : Config) : Except BootstrapError Database := do
  let name ← found (crypto.normalizeUsername (orDefault config.username "owner")) .username
  let instanceName := orDefault config.instanceName "Voxhold"
  require (1 ≤ instanceName.length ∧ instanceName.length ≤ 64) .instanceName
  let password := orDefault config.password crypto.generatedPassword
  require (8 ≤ password.utf8ByteSize ∧ password.utf8ByteSize ≤ 72) .password
  let userID := db.users.next
  let created := db.insertUser ⟨name.1, some name.2, crypto.hash password, none⟩
  let hosted := created.insertServer ⟨instanceName, userID⟩ (by
    show created.users.Has userID
    exact Table.has_of_get (Table.get_insert_next db.users))
  found (hosted.insertMember ⟨db.servers.next, userID, .owner, none⟩) .database

def ensure (crypto : Crypto) (config : Config) : Except BootstrapError Database := do
  let serverCount := db.servers.toList.length
  require (serverCount ≤ 1) (.servers serverCount)
  if serverCount = 1 then
    db.validateOwner
    return db
  else
    require (db.users.toList.length = 0) (.users db.users.toList.length)
    db.createInstance crypto config

end Database

/-- The database was made by the first start of an instance. -/
def Bootstrapped (db : Database) : Prop :=
  ∃ crypto config, Database.empty.ensure crypto config = .ok db

def run (db : Database) (requests : List Request) : Database :=
  requests.foldl Request.apply db

def Along (allowed : Database → Request → Prop) : Database → List Request → Prop
  | _, [] => True
  | db, r :: requests => allowed db r ∧ Along allowed (r.apply db) requests

instance Along.decidable {allowed : Database → Request → Prop}
    [h : ∀ db r, Decidable (allowed db r)] :
    (db : Database) → (requests : List Request) → Decidable (Along allowed db requests)
  | _, [] => .isTrue trivial
  | db, r :: requests => @instDecidableAnd _ _ (h db r) (Along.decidable (r.apply db) requests)

theorem run_induction {P : Database → Prop} {allowed : Database → Request → Prop} {db : Database}
    {requests : List Request} (hinit : P db) (hstep : ∀ db r, P db → allowed db r → P (r.apply db))
    (hallowed : Along allowed db requests) : P (run db requests) := by
  induction requests generalizing db with
  | nil => exact hinit
  | cons r requests ih => exact ih (hstep db r hinit hallowed.1) hallowed.2

namespace Sample

def crypto : Crypto where
  normalizeUsername := fun name => some (name, name)
  hash := id
  generatedPassword := "generated"

/-- The instance after its first start: account 1 owns server 1. -/
def instance₁ : Database :=
  (Database.empty.ensure crypto ⟨"", "", ""⟩).toOption.getD .empty

theorem bootstrapped_instance : Bootstrapped instance₁ :=
  ⟨crypto, ⟨"", "", ""⟩, rfl⟩

def call (c : Call) : Request := ⟨c, 0, 0, true⟩

/-- The owner makes a link for two registrations, and the accounts 2 and 3 register with it; then
the owner makes a link that anybody may use. -/
def members : List Request :=
  [call (.createLink 1 1 101 3600 (some 2) true), call (.register "anna" "anna" "a" 101 201 1000),
    call (.register "boris" "boris" "b" 101 202 1000), call (.createLink 1 1 102 3600 none false)]

/-- Account 2 is banned and asks, with a link, to become a member again. -/
def banned : List Request :=
  members ++ [call (.banMember 1 1 2 "spam"), call (.acceptLink 102 2)]

end Sample

end Voxhold.Account
