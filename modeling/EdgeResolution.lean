import EdgeResolution.Ancestry
import EdgeResolution.Artifact
import EdgeResolution.Attributes
import EdgeResolution.Component
import EdgeResolution.Datum
import EdgeResolution.Declaration
import EdgeResolution.Declaration.Ivy
import EdgeResolution.Declaration.Maven
import EdgeResolution.Edge
import EdgeResolution.Failure
import EdgeResolution.Matching
import EdgeResolution.NameMap
import EdgeResolution.Requester
import EdgeResolution.Schema
import EdgeResolution.Selector
import EdgeResolution.Session
import EdgeResolution.Settings
import EdgeResolution.Settings.File
import EdgeResolution.Stored
import EdgeResolution.Strategy
import EdgeResolution.Text.Blank
import EdgeResolution.Text.CharClass
import EdgeResolution.Text.Letter
import EdgeResolution.Text.Lower
import EdgeResolution.Toml.Document
import EdgeResolution.Toml.Lexical
import EdgeResolution.Toml.Moment
import EdgeResolution.Toml.Number
import EdgeResolution.Toml.Quoted
import EdgeResolution.Toml.Reader
import EdgeResolution.Toml.Table
import EdgeResolution.Toml.Value
import EdgeResolution.Version.Constraint
import EdgeResolution.Version.Order
import EdgeResolution.Version.Pattern
import EdgeResolution.Version.Range
import EdgeResolution.Version.Token
import EdgeResolution.Proofs.Ancestry.Listing
import EdgeResolution.Proofs.Ancestry.Expansion
import EdgeResolution.Proofs.Matching.Least
import EdgeResolution.Proofs.Matching.Optimum
import EdgeResolution.Proofs.Version.Place
import EdgeResolution.Proofs.Version.Transitivity
import EdgeResolution.Proofs.Edge.Derivation
import EdgeResolution.Proofs.Session.Run
import EdgeResolution.Proofs.Session.Lineage
import EdgeResolution.Proofs.Session.Identity
import EdgeResolution.Proofs.Selection.Attribution
import EdgeResolution.Proofs.Session.Mirror
import EdgeResolution.Proofs.Component.Declared
import EdgeResolution.Proofs.Matching.Singled
import EdgeResolution.Proofs.Selection.Separation
import EdgeResolution.Proofs.Selection.Addressing
import EdgeResolution.Proofs.Text.Pieces
import EdgeResolution.Proofs.Selector.Notation
import EdgeResolution.Proofs.Ancestry.Composition
import EdgeResolution.Proofs.Selection.Pom
import EdgeResolution.Proofs.Selection.Mapping
import EdgeResolution.Proofs.Stored.Fields
import EdgeResolution.Proofs.Stored.Forms
import EdgeResolution.Proofs.Ancestry.Settled
import EdgeResolution.Proofs.Matching.Stability
import EdgeResolution.Proofs.Version.Standing
import EdgeResolution.Proofs.Version.Numeric
import EdgeResolution.Proofs.Text.AsciiCase
import EdgeResolution.Proofs.Version.Spelling
import EdgeResolution.Proofs.Version.Precedence
import EdgeResolution.Proofs.Version.Notation
import EdgeResolution.Proofs.Version.FirstDifference
import EdgeResolution.Proofs.Version.Interval
import EdgeResolution.Proofs.Version.Acceptance
import EdgeResolution.Proofs.Selector.Legible
import EdgeResolution.Proofs.Declaration.Scope
import EdgeResolution.Proofs.Selection.Shorthand
import EdgeResolution.Proofs.Attributes.Layering
import EdgeResolution.Proofs.Schema.Declared
import EdgeResolution.Proofs.Ancestry.Stack
import EdgeResolution.Proofs.Component.Entries
import EdgeResolution.Proofs.Component.Hierarchy
import EdgeResolution.Proofs.Toml.Reading
import EdgeResolution.Proofs.Toml.Keys
import EdgeResolution.Proofs.Toml.Written
import EdgeResolution.Proofs.Toml.Number
import EdgeResolution.Proofs.Toml.Moment
import EdgeResolution.Proofs.Settings.File
