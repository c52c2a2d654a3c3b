import TerminalWorkspace.LocalConfig.Apply
import TerminalWorkspace.VaultStores.Hosts

/-! The keys, snippets and known-hosts stores. They are kept in the order of their last
change, as an import keeps them. -/
namespace VaultStores
open JsText Inventory LocalConfig
open RecordFile (trim)

section Keys

structure KeyMetadata where
  algorithm : KeyAlgorithm
  bits : ℤ
  fingerprint : JsString
  comment : JsString
  privateKeyPath : JsString
  publicKeyPath : Optional JsString

/-- A property that a literal copies is listed, even where it was absent. -/
def copied {α : Type*} (value : Optional α) : Optional α := listed value.get?

def createKeyRecord (label : JsString) (metadata : KeyMetadata) (source : KeySource)
    (hasPassphrase : Bool) (fresh now : JsString) : KeyRecord where
  id := fresh
  label := trim isSpace label
  algorithm := metadata.algorithm
  bits := metadata.bits
  fingerprint := metadata.fingerprint
  comment := metadata.comment
  privateKeyPath := metadata.privateKeyPath
  publicKeyPath := copied metadata.publicKeyPath
  source := source
  hasPassphrase := hasPassphrase
  assignedHostIds := []
  createdAt := now
  updatedAt := now

/-- The key at the path, if there is one, is described anew. -/
def upsertKey (p : Platform) (keys : List KeyRecord) (label : JsString) (metadata : KeyMetadata)
    (source : KeySource) (hasPassphrase : Bool) (fresh now : JsString) : List KeyRecord :=
  match keys.find? fun key => key.privateKeyPath = metadata.privateKeyPath with
  | none => sortKeys p (keys ++ [createKeyRecord label metadata source hasPassphrase fresh now])
  | some existing =>
    sortKeys p (editWhere (fun key => key.id = existing.id)
      (fun key =>
        { key with
          label := trim isSpace label
          algorithm := metadata.algorithm
          bits := metadata.bits
          fingerprint := metadata.fingerprint
          comment := metadata.comment
          publicKeyPath := copied metadata.publicKeyPath
          source := source
          hasPassphrase := hasPassphrase
          updatedAt := now }) keys)

def unassignHostFromAll (p : Platform) (keys : List KeyRecord) (hostId : JsString) :
    List KeyRecord :=
  sortKeys p (keys.map fun key =>
    { key with assignedHostIds := key.assignedHostIds.filter (· ≠ hostId) })

def assignHost (p : Platform) (keys : List KeyRecord) (keyId hostId now : JsString) :
    List KeyRecord :=
  sortKeys p (keys.map fun key =>
    { key with
      assignedHostIds :=
        if key.id = keyId then (key.assignedHostIds ++ [hostId]).eraseDups
        else key.assignedHostIds.filter (· ≠ hostId)
      updatedAt :=
        if key.id = keyId ∨ hostId ∈ key.assignedHostIds then now else key.updatedAt })

def sampleKeys : List KeyRecord :=
  [{  id := js "key-prod-ed25519"
      label := js "MacBook Pro ED25519"
      algorithm := .ed25519
      bits := 256
      fingerprint := js "SHA256:prodGatewayDemoKey"
      comment := js "ops@macbook-pro"
      privateKeyPath := js "~/.ssh/id_ed25519"
      publicKeyPath := .value (js "~/.ssh/id_ed25519.pub")
      source := .imported
      hasPassphrase := true
      assignedHostIds := [js "prod-gateway"]
      createdAt := js "2026-03-20T12:00:00.000Z"
      updatedAt := js "2026-03-29T11:10:00.000Z" },
    { id := js "key-deploy-shared"
      label := js "Deploy Shared Key"
      algorithm := .ed25519
      bits := 256
      fingerprint := js "SHA256:billingDeployDemo"
      comment := js "deploy@billing-api"
      privateKeyPath := js "~/.ssh/deploy_key"
      publicKeyPath := .value (js "~/.ssh/deploy_key.pub")
      source := .imported
      hasPassphrase := false
      assignedHostIds := [js "billing-api"]
      createdAt := js "2026-03-18T08:30:00.000Z"
      updatedAt := js "2026-03-28T20:12:00.000Z" }]

end Keys

section Snippets

structure SnippetFormValues where
  title : JsString
  description : JsString
  command : JsString
  tags : JsString
  targetHostIds : List JsString

def createSnippetRecord (values : SnippetFormValues) (currentSnippet : Option SnippetRecord)
    (fresh now : JsString) : SnippetRecord where
  id := (currentSnippet.map (·.id)).getD fresh
  title := trim isSpace values.title
  description := trim isSpace values.description
  command := values.command
  tags := splitCommaList values.tags
  targetHostIds := values.targetHostIds
  createdAt := (currentSnippet.map (·.createdAt)).getD now
  updatedAt := now
  lastRunAt := listed (currentSnippet.bind (·.lastRunAt.get?))

def updateSnippet (p : Platform) (snippets : List SnippetRecord) (snippetId : JsString)
    (values : SnippetFormValues) (now : JsString) : List SnippetRecord :=
  sortSnippets p (editWhere (fun snippet => snippet.id = snippetId)
    (fun snippet => createSnippetRecord values (some snippet) [] now) snippets)

/-- The copy of a snippet. -/
def duplicateRecord (source : SnippetRecord) (fresh now : JsString) : SnippetRecord :=
  { createSnippetRecord
      { title := source.title ++ js " Copy"
        description := source.description
        command := source.command
        tags := join (js ", ") source.tags
        targetHostIds := source.targetHostIds } none fresh now with
    lastRunAt := .undefined }

def removeHostFromAllTargets (p : Platform) (snippets : List SnippetRecord) (hostId : JsString) :
    List SnippetRecord :=
  sortSnippets p (snippets.map fun snippet =>
    { snippet with targetHostIds := snippet.targetHostIds.filter (· ≠ hostId) })

def markSnippetRun (p : Platform) (snippets : List SnippetRecord) (snippetId now : JsString) :
    List SnippetRecord :=
  sortSnippets p (editWhere (fun snippet => snippet.id = snippetId)
    (fun snippet => { snippet with lastRunAt := .value now, updatedAt := now }) snippets)

def sampleSnippets : List SnippetRecord :=
  [{  id := js "api-tail"
      title := js "Tail API logs"
      description := js "Quick check of the billing API service log."
      command := js "sudo journalctl -u billing-api -n 120 --no-pager"
      tags := [js "logs", js "api"]
      targetHostIds := [js "billing-api"]
      createdAt := js "2026-03-28T18:10:00.000Z"
      updatedAt := js "2026-03-29T08:45:00.000Z"
      lastRunAt := .absent },
    { id := js "disk-scan"
      title := js "Disk usage scan"
      description := js "Operator shortcut for filesystem pressure checks."
      command := js "df -h && du -sh /var/log 2>/dev/null | sort -h"
      tags := [js "ops", js "storage"]
      targetHostIds := [js "prod-gateway", js "edge-router-07"]
      createdAt := js "2026-03-27T14:20:00.000Z"
      updatedAt := js "2026-03-29T07:40:00.000Z"
      lastRunAt := .absent }]

end Snippets

section KnownHosts

structure KnownHostScanResult where
  hostname : JsString
  port : ℤ
  algorithm : JsString
  publicKey : JsString
  fingerprint : JsString

def createKnownHostId (entry : KnownHostScanResult) : JsString :=
  entry.hostname ++ js ":" ++ js (toString entry.port) ++ js ":" ++ entry.algorithm

def createKnownHostRecord (entry : KnownHostScanResult) (now : JsString) : KnownHostRecord where
  id := createKnownHostId entry
  hostname := entry.hostname
  port := entry.port
  algorithm := entry.algorithm
  publicKey := entry.publicKey
  fingerprint := entry.fingerprint
  trustedAt := now
  updatedAt := now

def trustKnownHost (p : Platform) (knownHosts : List KnownHostRecord) (entry : KnownHostScanResult)
    (now : JsString) : List KnownHostRecord :=
  sortKnownHosts p (createKnownHostRecord entry now ::
    knownHosts.filter fun knownHost => knownHost.id ≠ createKnownHostId entry)

def sampleKnownHosts : List KnownHostRecord :=
  [{  id := js "bastion.acme.internal:22:ssh-ed25519"
      hostname := js "bastion.acme.internal"
      port := 22
      algorithm := js "ssh-ed25519"
      publicKey := js "AAAAC3NzaC1lZDI1NTE5AAAAIKprodgatewaydemo"
      fingerprint := js "SHA256:prodGatewayDemoKey"
      trustedAt := js "2026-03-27T16:40:00.000Z"
      updatedAt := js "2026-03-29T11:10:00.000Z" },
    { id := js "billing-api-02.use1.internal:2222:ssh-ed25519"
      hostname := js "billing-api-02.use1.internal"
      port := 2222
      algorithm := js "ssh-ed25519"
      publicKey := js "AAAAC3NzaC1lZDI1NTE5AAAAIKbillingapidemo"
      fingerprint := js "SHA256:billingDeployDemo"
      trustedAt := js "2026-03-27T15:00:00.000Z"
      updatedAt := js "2026-03-28T17:45:00.000Z" }]

end KnownHosts

end VaultStores
