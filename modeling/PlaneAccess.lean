import PlaneAccess.Aggregate
import PlaneAccess.Api.Base64
import PlaneAccess.Api.Error
import PlaneAccess.Api.Server
import PlaneAccess.Api.Wait
import PlaneAccess.Api.Watch
import PlaneAccess.Bundle.Session
import PlaneAccess.Bundle.Source
import PlaneAccess.Bundle.Store
import PlaneAccess.Bundle.Subscription
import PlaneAccess.Bundle.Wait
import PlaneAccess.CommandLine.Contexts
import PlaneAccess.CommandLine.Failure
import PlaneAccess.CommandLine.Help
import PlaneAccess.CommandLine.Request
import PlaneAccess.CommandLine.Run
import PlaneAccess.CommandLine.Switch
import PlaneAccess.CommandLine.Topic
import PlaneAccess.ControlPlane.Identity
import PlaneAccess.ControlPlane.Json
import PlaneAccess.ControlPlane.Kind
import PlaneAccess.ControlPlane.Name
import PlaneAccess.ControlPlane.Naming
import PlaneAccess.Decimal.Arithmetic
import PlaneAccess.Decimal.Binary64
import PlaneAccess.Decimal.Literal
import PlaneAccess.Decimal.Notation
import PlaneAccess.Decimal.Shortest
import PlaneAccess.Duration
import PlaneAccess.Error
import PlaneAccess.FileSystem.Basic
import PlaneAccess.FileSystem.Change
import PlaneAccess.FileSystem.Edit
import PlaneAccess.FileSystem.Path
import PlaneAccess.Json.Error
import PlaneAccess.Json.Number
import PlaneAccess.Json.Quoted
import PlaneAccess.Json.Read
import PlaneAccess.Json.Reader
import PlaneAccess.Json.Write
import PlaneAccess.Kubeconfig.Basic
import PlaneAccess.Kubeconfig.Codec
import PlaneAccess.Kubeconfig.Dangling
import PlaneAccess.Kubeconfig.Listing
import PlaneAccess.Kubeconfig.Merge
import PlaneAccess.Kubeconfig.Remap
import PlaneAccess.Kubeconfig.Schema
import PlaneAccess.Loader
import PlaneAccess.Main
import PlaneAccess.NameMap
import PlaneAccess.NameMap.Lemmas
import PlaneAccess.Proofs.Aggregate
import PlaneAccess.Proofs.Aggregate.Footprint
import PlaneAccess.Proofs.Aggregate.Persisted
import PlaneAccess.Proofs.Api.Wait
import PlaneAccess.Proofs.Bundle.Counting
import PlaneAccess.Proofs.Bundle.Delivery
import PlaneAccess.Proofs.Bundle.History
import PlaneAccess.Proofs.Bundle.Independence
import PlaneAccess.Proofs.Bundle.Outcome
import PlaneAccess.Proofs.Bundle.Polling
import PlaneAccess.Proofs.Bundle.Session
import PlaneAccess.Proofs.Bundle.Store
import PlaneAccess.Proofs.Bundle.Subscription
import PlaneAccess.Proofs.Bundle.Wait
import PlaneAccess.Proofs.CommandLine.DryRun
import PlaneAccess.Proofs.CommandLine.Timeout
import PlaneAccess.Proofs.ControlPlane.Json
import PlaneAccess.Proofs.ControlPlane.Label
import PlaneAccess.Proofs.ControlPlane.Namespace
import PlaneAccess.Proofs.Decimal.Digits
import PlaneAccess.Proofs.Decimal.Nearest
import PlaneAccess.Proofs.Decimal.Notation
import PlaneAccess.Proofs.Decimal.Shortest
import PlaneAccess.Proofs.Except
import PlaneAccess.Proofs.FileSystem.Directories
import PlaneAccess.Proofs.FileSystem.FailedWrite
import PlaneAccess.Proofs.FileSystem.Footprint
import PlaneAccess.Proofs.FileSystem.Install
import PlaneAccess.Proofs.FileSystem.NewFile
import PlaneAccess.Proofs.FileSystem.Walk
import PlaneAccess.Proofs.FileSystem.WriteThenRead
import PlaneAccess.Proofs.Json.Quoted
import PlaneAccess.Proofs.Json.Reader
import PlaneAccess.Proofs.Kubeconfig.Dangling
import PlaneAccess.Proofs.Kubeconfig.Decoded
import PlaneAccess.Proofs.Kubeconfig.Independence
import PlaneAccess.Proofs.Kubeconfig.LeftBehind
import PlaneAccess.Proofs.Kubeconfig.Listing
import PlaneAccess.Proofs.Kubeconfig.Merging
import PlaneAccess.Proofs.Kubeconfig.Omitted
import PlaneAccess.Proofs.Kubeconfig.Renaming
import PlaneAccess.Proofs.Kubeconfig.Repeated
import PlaneAccess.Proofs.Kubeconfig.Report
import PlaneAccess.Proofs.Kubeconfig.Rewrite
import PlaneAccess.Proofs.Kubeconfig.RoundTrip
import PlaneAccess.Proofs.Kubeconfig.Tree
import PlaneAccess.Proofs.Loader
import PlaneAccess.Proofs.Loader.Again
import PlaneAccess.Proofs.Loader.Failure
import PlaneAccess.Proofs.Loader.Runs
import PlaneAccess.Proofs.Loader.Stores
import PlaneAccess.Proofs.Text.Utf8
import PlaneAccess.Proofs.Yaml.Apart
import PlaneAccess.Proofs.Yaml.Contents
import PlaneAccess.Proofs.Yaml.Fields
import PlaneAccess.Proofs.Yaml.Layout
import PlaneAccess.Proofs.Yaml.Meaning
import PlaneAccess.Proofs.Yaml.Omitted
import PlaneAccess.Proofs.Yaml.Read
import PlaneAccess.Proofs.Yaml.Record
import PlaneAccess.Proofs.Yaml.Repeated
import PlaneAccess.Proofs.Yaml.Rewrite
import PlaneAccess.Proofs.Yaml.Tree
import PlaneAccess.Proofs.Yaml.Value
import PlaneAccess.Settings
import PlaneAccess.Settings.Json
import PlaneAccess.Text.Blank
import PlaneAccess.Text.Found
import PlaneAccess.Text.Octets
import PlaneAccess.Text.Quoted
import PlaneAccess.Text.Unshown
import PlaneAccess.Yaml.Character
import PlaneAccess.Yaml.Cursor
import PlaneAccess.Yaml.Event
import PlaneAccess.Yaml.Layout
import PlaneAccess.Yaml.Meaning
import PlaneAccess.Yaml.Node
import PlaneAccess.Yaml.Path
import PlaneAccess.Yaml.Read.Scalar
import PlaneAccess.Yaml.Read.Value
import PlaneAccess.Yaml.ReadError
import PlaneAccess.Yaml.Record
import PlaneAccess.Yaml.Scalar.Block
import PlaneAccess.Yaml.Scalar.Gap
import PlaneAccess.Yaml.Scalar.Plain
import PlaneAccess.Yaml.Scalar.Quoted
import PlaneAccess.Yaml.Scalar.Style
import PlaneAccess.Yaml.Stream
import PlaneAccess.Yaml.Token
import PlaneAccess.Yaml.Token.Lexer
import PlaneAccess.Yaml.Token.Property
import PlaneAccess.Yaml.Tree
import PlaneAccess.Yaml.Value
import PlaneAccess.Yaml.Write
