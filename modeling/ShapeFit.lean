import ShapeFit.Diagnostic.Render
import ShapeFit.Registry
import ShapeFit.Resolver.Request
import ShapeFit.Signature.Parser
import ShapeFit.Signature.Printer
import ShapeFit.Proofs.Diagnostic.Rendering
import ShapeFit.Proofs.Fit.Rules
import ShapeFit.Proofs.Registry.History
import ShapeFit.Proofs.Resolver.Advice
import ShapeFit.Proofs.Resolver.Blurring
import ShapeFit.Proofs.Resolver.Composite
import ShapeFit.Proofs.Resolver.Counting
import ShapeFit.Proofs.Resolver.Decision
import ShapeFit.Proofs.Resolver.Expansion
import ShapeFit.Proofs.Resolver.Filling
import ShapeFit.Proofs.Resolver.Location
import ShapeFit.Proofs.Resolver.Monotonicity
import ShapeFit.Proofs.Resolver.Selection
import ShapeFit.Proofs.Resolver.Stability
import ShapeFit.Proofs.Resolver.Staging
import ShapeFit.Proofs.Resolver.Transparency
import ShapeFit.Proofs.Signature.Acceptance
import ShapeFit.Proofs.Signature.BareNames
import ShapeFit.Proofs.Signature.Faults
import ShapeFit.Proofs.Signature.RoundTrip
import ShapeFit.Proofs.Signature.Tiling
